import Coordination.Proofs.Environment.Requests
import Coordination.Proofs.Registry.DirectoryChange
import Coordination.Proofs.Registry.Phases

/-!
# Which names a change leaves

A change of a directory reads once which of its names are there, before it writes anything. What
it deletes are those of the names to delete that are there then. So a name that is both written
and deleted goes if it was there, and stays if it was missing: it is created, and not deleted.
The summary tells the growth of the directory all the same, since it counts what was planned.
-/

namespace Coordination

/-! ## Plans where nothing is made to fail -/

namespace Service

variable {s : Service} {writes creates updates : List (String × Bytes)}
variable {paths kept : List String}

theorem Splits.eq_filter (h : s.Splits writes creates updates) (hs : s.faults = []) :
    creates = (writes.filter fun w => ¬ s.tree.Has w.1) ∧
      updates = writes.filter fun w => s.tree.Has w.1 := by
  induction h with
  | nil => exact ⟨rfl, rfl⟩
  | missing lacks rest ih =>
    have hmissing := lacks.not_has hs
    rw [List.filter_cons_of_pos (by simpa using hmissing),
      List.filter_cons_of_neg (by simpa using hmissing)]
    exact ⟨congrArg _ ih.1, ih.2⟩
  | there has rest ih =>
    rw [List.filter_cons_of_neg (by simpa using has), List.filter_cons_of_pos (by simpa using has)]
    exact ⟨ih.1, congrArg _ ih.2⟩

theorem Retains.eq_filter (h : s.Retains paths kept) (hs : s.faults = []) :
    kept = paths.filter fun p => s.tree.Has p := by
  induction h with
  | nil => rfl
  | missing lacks rest ih =>
    rw [List.filter_cons_of_neg (by simpa using lacks.not_has hs)]
    exact ih
  | there has rest ih =>
    rw [List.filter_cons_of_pos (by simpa using has)]
    exact congrArg _ ih

end Service

/-! ## Batches on the children of a node -/

namespace Tree

variable {t t' : Tree} {d q : String} {writes : List (String × Bytes)} {deletes : List String}

/-- Below a node whose children are written and deleted, what was there and is not deleted is
there afterwards, and what was missing and is written. -/
theorem Makes.has_planned (ht : t.Sound) (h : Makes t (t.planned writes deletes).calls t')
    (hwrites : ∀ w ∈ writes, Path.isValid w.1 = true ∧ Path.parent? w.1 = some d)
    (hq : Path.Below d q) : t'.Has q ↔
      (t.Has q ∧ q ∉ deletes) ∨ (¬ t.Has q ∧ q ∈ writes.map (·.1)) := by
  rw [h.has_batch ht, mem_deletes_planned]
  constructor
  · rintro ⟨hthere | ⟨hvalid, w, hw, hqw⟩, hkept⟩
    · exact Or.inl ⟨hthere, fun hmem => hkept ⟨hmem, hthere⟩⟩
    · obtain ⟨hw, hmissing⟩ := mem_creates_planned.1 hw
      obtain ⟨hvalidw, hparent⟩ := hwrites w hw
      have hnot := Path.not_below_of_parent hvalid hvalidw hparent hq
      obtain rfl := hqw.resolve_right hnot
      exact Or.inr ⟨hmissing, List.mem_map_of_mem hw⟩
  · rintro (⟨hthere, hkept⟩ | ⟨hmissing, hmem⟩)
    · exact ⟨Or.inl hthere, fun hmem => hkept hmem.1⟩
    · obtain ⟨w, hw, rfl⟩ := List.mem_map.1 hmem
      refine ⟨Or.inr ⟨(hwrites w hw).1, w, ?_, Or.inl rfl⟩, fun hmem => hmissing hmem.2⟩
      exact mem_creates_planned.2 ⟨hw, hmissing⟩

theorem map_creates_planned : (t.planned writes deletes).creates.map (·.1) =
    (writes.map (·.1)).filter fun q => ¬ t.Has q := by
  rw [List.filter_map]
  rfl

/-- The node has the children that it had, and those created, but not those deleted. -/
theorem Makes.length_childPaths_planned (ht : t.Sound) (hd : t.Has d)
    (h : Makes t (t.planned writes deletes).calls t')
    (hwrites : ∀ w ∈ writes, Path.isValid w.1 = true ∧ Path.parent? w.1 = some d)
    (hdeletes : ∀ p ∈ deletes, t.Has p → Path.parent? p = some d)
    (hcreated : (writes.map (·.1)).Nodup) (hdeleted : deletes.Nodup) :
    (t'.childPaths d).length + (t.planned writes deletes).deletes.length =
      (t.childPaths d).length + (t.planned writes deletes).creates.length := by
  have hp := ht.valid hd
  have ht' := (h.sound ht).1
  have hnew : ((t.planned writes deletes).creates.map (·.1)).Nodup := by
    rw [map_creates_planned]
    exact hcreated.filter _
  have hcreate (q : String) : q ∈ (t.planned writes deletes).creates.map (·.1) ↔
      q ∈ writes.map (·.1) ∧ ¬ t.Has q := by
    rw [map_creates_planned, List.mem_filter, decide_eq_true_eq]
  have hboth : (t'.childPaths d ++ (t.planned writes deletes).deletes).Perm
      (t.childPaths d ++ (t.planned writes deletes).creates.map (·.1)) := by
    rw [List.perm_ext_iff_of_nodup]
    · intro q
      rw [List.mem_append, List.mem_append, mem_childPaths_iff ht' hp, mem_childPaths_iff ht hp,
        mem_deletes_planned, hcreate]
      by_cases hq : Path.isValid q = true ∧ Path.parent? q = some d
      · rw [h.has_planned ht hwrites (Path.below_of_parent hq.1 hq.2), and_iff_left hq.2,
          and_iff_left hq.2]
        tauto
      · refine iff_of_false ?_ ?_
        · rintro (⟨hhas, hparent⟩ | ⟨hmem, hhas⟩)
          · exact hq ⟨ht'.valid hhas, hparent⟩
          · exact hq ⟨ht.valid hhas, hdeletes q hmem hhas⟩
        · rintro (⟨hhas, hparent⟩ | ⟨hmem, _⟩)
          · exact hq ⟨ht.valid hhas, hparent⟩
          · obtain ⟨w, hw, rfl⟩ := List.mem_map.1 hmem
            exact hq (hwrites w hw)
    · refine List.nodup_append.2 ⟨nodup_childPaths ht' hp, hdeleted.filter _, ?_⟩
      rintro q hq _ hgone rfl
      exact ((h.has_batch ht).1 ((mem_childPaths_iff ht' hp).1 hq).1).2 hgone
    · refine List.nodup_append.2 ⟨nodup_childPaths ht hp, hnew, ?_⟩
      rintro q hq _ hcreated rfl
      exact ((hcreate q).1 hcreated).2 ((mem_childPaths_iff ht hp).1 hq).1
  have hlength := hboth.length_eq
  rwa [List.length_append, List.length_append, List.length_map] at hlength

end Tree

/-! ## Changes of a placed directory -/

/-- Nothing is pruned after the deletion of children of the root. -/
theorem Registry.pruneGroups_of_children {d : String} (hd : d ≠ Path.root) {paths : List String}
    (h : ∀ p ∈ paths, Path.parent? p = some d) : pruneGroups d paths = pure 0 := by
  induction paths with
  | nil => rfl
  | cons p rest ih =>
    obtain ⟨hp, hrest⟩ := List.forall_mem_cons.1 h
    have hstart : ¬ Path.startsWith (d ++ "/") d = true := by
      rw [← Path.childStart_of_ne hd, Path.not_startsWith_childStart_self hd]
      exact Bool.false_ne_true
    rw [pruneGroups, ih hrest, Path.ancestors_of_parent hp, pruneUp, if_neg hstart]
    rfl

namespace DirectoryChange

/-- The templates place the directory of a change at `d`, and what belongs to it right behind. -/
def PlacedAt (r : Registry) (d : String) : DirectoryChange → Prop
  | .newEnv id _ | .saveEnv id _ _ => ∃ v, r.PlacesEnv id d v
  | .newConf kind scope _ | .saveConf kind scope _ _ => r.PlacesTier kind scope d

/-- The names that a change writes. -/
def updated : DirectoryChange → List String
  | .newEnv _ vars => vars.keys
  | .newConf _ _ objects => objects.keys
  | .saveEnv _ change _ => change.update.keys
  | .saveConf _ _ change _ => change.update.keys

/-- The names that a change deletes. -/
def removed : DirectoryChange → List String
  | .newEnv .. | .newConf .. => []
  | .saveEnv _ change _ => change.delete.keys
  | .saveConf _ _ change _ => change.delete.keys

theorem pairwise_updated (c : DirectoryChange) : c.updated.Pairwise (· < ·) := by
  cases c <;> exact OrderedMap.pairwise_keys _

theorem pairwise_removed (c : DirectoryChange) : c.removed.Pairwise (· < ·) := by
  cases c with
  | newEnv | newConf => exact .nil
  | saveEnv | saveConf => exact OrderedMap.pairwise_keys _

variable {r : Registry} {c : DirectoryChange} {d : String}

namespace PlacedAt

theorem root (h : c.PlacedAt r d) : ∃ v, c.root r = .ok (d, v) := by
  cases c with
  | newEnv id | saveEnv id => exact h.imp fun v h => h.root
  | newConf kind scope | saveConf kind scope =>
    refine ⟨[], ?_⟩
    rw [DirectoryChange.root, Registry.PlacesTier.root h]
    rfl

theorem writes (h : c.PlacedAt r d) :
    ∃ cells, c.writes r = .ok cells ∧ cells.map (·.1) = c.updated.map (d ++ "/" ++ ·) := by
  have hnames {α : Type} (m : OrderedMap α) (f : α → Bytes) :
      (m.toList.map fun w => (d ++ "/" ++ w.1, f w.2)).map (·.1) = m.keys.map (d ++ "/" ++ ·) := by
    rw [OrderedMap.keys, List.map_map, List.map_map]
    rfl
  cases c with
  | newEnv id vars | saveEnv id change =>
    obtain ⟨v, h⟩ := h
    exact ⟨_, h.cells _, hnames _ _⟩
  | newConf kind scope objects | saveConf kind scope change =>
    exact ⟨_, Registry.PlacesTier.cells h _, hnames _ id⟩

theorem deletes (h : c.PlacedAt r d) : c.deletes r = .ok (c.removed.map (d ++ "/" ++ ·)) := by
  cases c with
  | newEnv | newConf => rfl
  | saveEnv id change =>
    obtain ⟨v, h⟩ := h
    exact h.paths _
  | saveConf kind scope change => exact Registry.PlacesTier.paths h _

end PlacedAt

variable {s s' : Service} {n : ChangeSummary}

/-- A change that is answered with a summary was planned in the tree that it found, and its
batch was applied; what is left then is to finish it. -/
theorem planned_of_saved (hs : s.faults = []) (hplaced : c.PlacedAt r d)
    (h : s.run (c.step.action r).run = (.ok (.summary n), s')) :
    ∃ (cells : List (String × Bytes)) (s₂ : Service),
      cells.map (·.1) = c.updated.map (d ++ "/" ++ ·) ∧ s.tree.Has d ∧
      let b := s.tree.planned cells (c.removed.map (d ++ "/" ++ ·))
      s.tree.Makes b.calls s₂.tree ∧
        s₂.run (c.finish d b b.summary).run = (.ok (.summary n), s') := by
  have hcourse := c.course_of_run r s
  rw [h] at hcourse
  generalize s.trace (c.step.action r).run = tried at hcourse
  cases hcourse with
  | @applied path b s₁ s₂ _ tried _ hprepare hprepared happly houtcome hfinish =>
    cases houtcome with
    | all makes =>
      cases hprepared with
      | created new root writes_eq valid missing tree =>
        cases c with
        | newEnv | newConf =>
          obtain ⟨m, s₃, _, hpure⟩ := Service.exists_of_run_bind_eq_ok hfinish
          cases hpure
        | saveEnv | saveConf => cases new
      | planned old root writes_eq deletes_eq revision tree split kept =>
        obtain ⟨v, hroot⟩ := hplaced.root
        obtain ⟨cells, hcells, hnames⟩ := hplaced.writes
        obtain ⟨rfl, _⟩ := Prod.mk.inj (Except.ok.inj (root.symm.trans hroot))
        obtain rfl := Except.ok.inj (hcells.symm.trans writes_eq)
        obtain rfl := Except.ok.inj (deletes_eq.symm.trans hplaced.deletes)
        have hb : b = s.tree.planned cells (c.removed.map (path ++ "/" ++ ·)) := by
          obtain ⟨hcreates, hupdates⟩ := split.eq_filter hs
          cases b
          rw [Tree.planned, ← hcreates, ← hupdates, ← kept.eq_filter hs]
        rw [tree, hb] at makes
        rw [hb] at hfinish
        exact ⟨cells, s₂, hnames, Tree.has_iff_revision?.2 ⟨_, revision⟩, makes, hfinish⟩

/-- To finish a change that deleted children of its directory nothing is left to do. -/
theorem finish_of_children (hd : d ≠ Path.root) {b : Batch} {m : ChangeSummary}
    (hdeletes : ∀ p ∈ b.deletes, Path.parent? p = some d)
    (h : s.run (c.finish d b m).run = (.ok (.summary n), s')) : s' = s ∧ n = m := by
  cases c with
  | newEnv | newConf =>
    obtain ⟨root, s₁, _, hpure⟩ := Service.exists_of_run_bind_eq_ok h
    cases hpure
  | saveEnv =>
    rw [finish, Registry.pruneGroups_of_children hd hdeletes] at h
    cases h
    exact ⟨rfl, rfl⟩
  | saveConf =>
    cases h
    exact ⟨rfl, rfl⟩

/-- After a change that succeeds a name is there if it was and is not deleted, or if it was
missing and is written. What is created are the missing names, what is updated and deleted those
that were there, and the directory grows by what is created and shrinks by what is deleted. -/
theorem names_after_change (hs : s.FaultFree) (hreachable : s.tree.Reachable)
    (hplaced : c.PlacedAt r d) (hd : d ≠ Path.root) (hupdated : ∀ x ∈ c.updated, '/' ∉ x.toList)
    (hremoved : ∀ x ∈ c.removed, '/' ∉ x.toList)
    (h : s.run (c.step.action r).run = (.ok (.summary n), s')) :
    (∀ x, s'.tree.Has (d ++ "/" ++ x) ↔
      (s.tree.Has (d ++ "/" ++ x) ∧ x ∉ c.removed) ∨
        (¬ s.tree.Has (d ++ "/" ++ x) ∧ x ∈ c.updated)) ∧
      n.created = (c.updated.filter fun x => ¬ s.tree.Has (d ++ "/" ++ x)).length ∧
      n.updated = (c.updated.filter fun x => s.tree.Has (d ++ "/" ++ x)).length ∧
      n.deleted = (c.removed.filter fun x => s.tree.Has (d ++ "/" ++ x)).length ∧
      (s'.tree.childPaths d).length + n.deleted = (s.tree.childPaths d).length + n.created := by
  have ht := hreachable.sound
  obtain ⟨cells, s₂, hnames, hthere, hmakes, hfinish⟩ := planned_of_saved hs.faults hplaced h
  have hp := ht.valid hthere
  have hinj : Function.Injective (d ++ "/" ++ ·) := fun x y => Path.append_left_cancel
  have hmemu {x : String} : d ++ "/" ++ x ∈ cells.map (·.1) ↔ x ∈ c.updated := by
    rw [hnames, List.mem_map_of_injective hinj]
  have hmemr {x : String} : d ++ "/" ++ x ∈ c.removed.map (d ++ "/" ++ ·) ↔ x ∈ c.removed :=
    List.mem_map_of_injective hinj
  have hwrites : ∀ w ∈ cells, Path.isValid w.1 = true ∧ Path.parent? w.1 = some d := by
    intro w hw
    have hvalid := hmakes.valid_planned ht w hw
    obtain ⟨x, hx, heq⟩ := List.mem_map.1 (hnames ▸ List.mem_map_of_mem (f := Prod.fst) hw)
    refine ⟨hvalid, ?_⟩
    rw [← heq] at hvalid ⊢
    exact Path.parent?_of_isValid_cut hp hd hvalid (hupdated x hx)
  have hdeletes : ∀ p ∈ c.removed.map (d ++ "/" ++ ·), s.tree.Has p →
      Path.parent? p = some d :=
    List.forall_mem_map.2 fun x hx hhas =>
      Path.parent?_of_isValid_cut hp hd (ht.valid hhas) (hremoved x hx)
  obtain ⟨rfl, rfl⟩ := finish_of_children hd
    (fun p hp => hdeletes p (Tree.mem_deletes_planned.1 hp).1 (Tree.mem_deletes_planned.1 hp).2)
    hfinish
  have hcount (p : String → Bool) : (cells.filter fun w => p w.1).length =
      (c.updated.filter fun x => p (d ++ "/" ++ x)).length := by
    have hlength := congrArg (fun l => (l.filter p).length) hnames
    simp only [List.filter_map, List.length_map] at hlength
    exact hlength
  refine ⟨fun x => ?_, hcount fun q => ¬ s.tree.Has q, hcount fun q => s.tree.Has q, ?_, ?_⟩
  · by_cases hx : Path.IsRelative x
    · rw [hmakes.has_planned ht hwrites (Path.below_cut hd hx.ne_empty), hmemu, hmemr]
    · have hinvalid : ¬ Path.isValid (d ++ "/" ++ x) = true := fun hvalid =>
        hx (Path.isRelative_of_isValid_cut hp hd hvalid)
      have hbefore : ¬ s.tree.Has (d ++ "/" ++ x) := fun hhas => hinvalid (ht.valid hhas)
      have hafter : ¬ s'.tree.Has (d ++ "/" ++ x) := fun hhas =>
        hinvalid ((hmakes.sound ht).1.valid hhas)
      have hwritten : x ∉ c.updated := fun hmem => by
        obtain ⟨w, hw, heq⟩ := List.mem_map.1 (hmemu.2 hmem)
        exact hinvalid (heq ▸ (hwrites w hw).1)
      simp only [hbefore, hafter, hwritten, false_and, and_false, or_false]
  · show ((c.removed.map (d ++ "/" ++ ·)).filter _).length = _
    rw [List.filter_map, List.length_map]
    rfl
  · refine hmakes.length_childPaths_planned ht hthere hwrites hdeletes ?_ ?_
    · rw [hnames]
      exact OrderedMap.nodup_of_pairwise (Path.pairwise_cut c.pairwise_updated d)
    · exact OrderedMap.nodup_of_pairwise (Path.pairwise_cut c.pairwise_removed d)

end DirectoryChange

theorem eq_of_saved? {reply : Except RegistryError Answer} {n : ChangeSummary}
    (h : EnvRequest.saved? reply = some n) : reply = .ok (.summary n) := by
  rcases reply with e | answer
  · cases h
  · cases answer <;> cases h
    rfl

namespace WrittenAndDeleted

/-- A release. -/
def id : ReleaseId := ⟨"d", "s", "v"⟩

def after (c : DirectoryChange) (s : Service) : Service := (s.run (c.step.action .standard).run).2

/-- An environment with two variables. -/
def service : Service :=
  after (.newEnv id ((OrderedMap.empty.insert "A" "1").insert "B" "2")) .fresh

/-- A change that writes and deletes a variable that is there and one that is missing. It also
adds one, takes one away, and deletes a missing one. -/
def change : DirectoryChange :=
  .saveEnv id ⟨((OrderedMap.empty.insert "A" "3").insert "C" "4").insert "E" "5",
    (((OrderedMap.empty.insert "A" ()).insert "B" ()).insert "D" ()).insert "E" ()⟩ 2

/-- The variable that was there is gone, and the one that was missing is there. -/
theorem missing_stays :
    (service.FaultFree ∧ service.tree.Reachable ∧ change.PlacedAt .standard id.envPath ∧
      id.envPath ≠ Path.root ∧ (∀ x ∈ change.updated, '/' ∉ x.toList) ∧
      ∀ x ∈ change.removed, '/' ∉ x.toList) ∧
    service.run (change.step.action .standard).run =
      (.ok (.summary ⟨2, 1, 2⟩), after change service) ∧
    ¬ (after change service).tree.Has (id.envPath ++ "/" ++ "A") ∧
    (after change service).tree.Has (id.envPath ++ "/" ++ "E") ∧
    ((after change service).tree.childPaths id.envPath).length + 2 =
      (service.tree.childPaths id.envPath).length + 2 := by
  have hs : service.FaultFree := Service.FaultFree.run ⟨rfl, rfl⟩ _
  have hreachable : service.tree.Reachable := Service.reachable_run _ .empty
  have hplaced : change.PlacedAt .standard id.envPath := ⟨[], Registry.placesEnv_standard id⟩
  have hupdated : ∀ x ∈ change.updated, '/' ∉ x.toList := by decide
  have hremoved : ∀ x ∈ change.removed, '/' ∉ x.toList := by decide
  have hrun : service.run (change.step.action .standard).run =
      (.ok (.summary ⟨2, 1, 2⟩), after change service) :=
    Prod.ext (eq_of_saved? (by decide +kernel)) rfl
  obtain ⟨hnames, _, _, _, hgrowth⟩ := DirectoryChange.names_after_change hs hreachable hplaced
    id.envPath_ne_root hupdated hremoved hrun
  refine ⟨⟨hs, hreachable, hplaced, id.envPath_ne_root, hupdated, hremoved⟩, hrun, ?_, ?_, hgrowth⟩
  · rw [hnames]
    decide +kernel
  · rw [hnames]
    decide +kernel

/-- A tier without objects. -/
def tier : Service := after (.newConf .config (.base "c" "s") .empty) .fresh

/-- An object that is written and deleted in one change. -/
def object : DirectoryChange :=
  .saveConf .config (.base "c" "s")
    ⟨OrderedMap.empty.insert "X" [1], OrderedMap.empty.insert "X" ()⟩ 0

/-- A name that a change deletes is there when it has succeeded: a variable, and an object. -/
theorem deleted_name_there :
    EnvRequest.saved? (service.run (change.step.action .standard).run).1 = some ⟨2, 1, 2⟩ ∧
      "E" ∈ change.removed ∧
      (after change service).tree.Has (id.envPath ++ "/" ++ "E") ∧
      EnvRequest.saved? (tier.run (object.step.action .standard).run).1 = some ⟨1, 0, 0⟩ ∧
      "X" ∈ object.removed ∧
      (after object tier).tree.Has ((Scope.base "c" "s").path .config ++ "/" ++ "X") :=
  ⟨by decide +kernel, by decide +kernel, by decide +kernel, by decide +kernel,
    by decide +kernel, by decide +kernel⟩

end WrittenAndDeleted

end Coordination
