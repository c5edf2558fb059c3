import Coordination.Proofs.Environment.Groups
import Coordination.Proofs.Environment.Listing
import Coordination.Proofs.Registry.Phases

/-!
# Which changes can be applied

A change at the current revision is applied to its end unless it deletes a name that something
continues with a slash when the deletions begin: a variable that is listed, or one that the
change itself creates or sets below a variable that it deletes. The creations come first and
the deletions go down from the shorter names to the longer ones, so that neither a variable and
the group of its name change places this way, nor do a node and what is below it go in one
change. A group can be replaced by a variable of its name, though, and names that nothing is
at are skipped.
-/

namespace Coordination

namespace EnvChange

/-- A name to delete is continued by a variable, or it is one and the change writes a name that
continues it. -/
def Obstructs (c : EnvChange) (env : Env) (x : String) : Prop :=
  (∃ y ∈ env.keys, Path.startsWith (x ++ "/") y = true) ∨
    (x ∈ env.keys ∧ ∃ y ∈ c.update.keys, Path.startsWith (x ++ "/") y = true)

instance (c : EnvChange) (env : Env) (x : String) : Decidable (c.Obstructs env x) :=
  inferInstanceAs (Decidable (_ ∨ _))

end EnvChange

namespace Registry

/-- An empty change has an empty batch, and nothing to prune. -/
theorem envWrites_eq (id : ReleaseId) (c : EnvChange) : envWrites id c = (do
    let batch ← Batch.plan (variableCells id c.update)
      (c.delete.keys.map fun name => id.envPath ++ "/" ++ name)
    let summary ← batch.apply []
    let _ ← pruneGroups id.envPath batch.deletes
    pure summary) := by
  rw [envWrites]
  split
  · rename_i hempty
    obtain ⟨hupdate, hdelete⟩ := EnvChange.lists_of_isEmpty hempty
    rw [variableCells, hupdate, hdelete]
    rfl
  · rfl

/-- The writes of a change are for the names that it updates. -/
theorem paths_variableCells (id : ReleaseId) (vars : Env) :
    (variableCells id vars).map (·.1) = vars.keys.map (id.envPath ++ "/" ++ ·) := by
  rw [variableCells, OrderedMap.keys, List.map_map, List.map_map]
  rfl

end Registry

namespace Tree

variable {t : Tree} {d x : String} {env : Env}

/-! ## Names and nodes -/

/-- The variables are the nodes without children below `d`. -/
def Lists (t : Tree) (d : String) (env : Env) : Prop :=
  ∀ x, env.contains x = true ↔ t.Has (d ++ "/" ++ x) ∧ Path.Below d (d ++ "/" ++ x) ∧
    t.childPaths (d ++ "/" ++ x) = []

namespace Lists

variable (h : t.Lists d env) (ht : t.Sound) (hp : Path.isValid d = true) (hd : d ≠ Path.root)

include h ht hp hd

/-- At or below every node there is a variable. -/
theorem exists_variable {q : String} (hq : t.Has q) (hbelow : Path.Below d q) :
    ∃ y ∈ env.keys, Path.IsRelative y ∧
      (q = d ++ "/" ++ y ∨ Path.Below q (d ++ "/" ++ y)) := by
  obtain ⟨leaf, hhas, hleaf, hqleaf⟩ := ht.exists_leaf hq
  have hdleaf : Path.Below d leaf := by
    rcases hqleaf with rfl | hqleaf
    · exact hbelow
    · exact Path.below_trans hbelow hqleaf
  obtain ⟨y, hy, rfl⟩ := hdleaf.exists_cut hp hd (ht.valid hhas)
  exact ⟨y, OrderedMap.contains_iff_mem_keys.1 ((h y).2 ⟨hhas, hdleaf, hleaf⟩), hy,
    hqleaf.imp_left Eq.symm⟩

/-- Something is below a name exactly if a variable continues it. -/
theorem blocked_iff (hx : Path.IsRelative x) :
    t.Blocked (d ++ "/" ++ x) ↔ ∃ y ∈ env.keys, Path.startsWith (x ++ "/") y = true := by
  have hdx := Path.below_cut hd hx.ne_empty
  constructor
  · rintro ⟨q, hq, hbelow⟩
    obtain ⟨y, hkey, hy, hqy⟩ := h.exists_variable ht hp hd hq (Path.below_trans hdx hbelow)
    refine ⟨y, hkey, (Path.below_cut_iff hd hx.ne_empty hy.ne_empty).1 ?_⟩
    rcases hqy with rfl | hqy
    · exact hbelow
    · exact Path.below_trans hbelow hqy
  · rintro ⟨y, hkey, hstart⟩
    obtain ⟨hhas, hbelow, _⟩ := (h y).1 (OrderedMap.contains_iff_mem_keys.2 hkey)
    obtain ⟨z, hz, heq⟩ := hbelow.exists_cut hp hd (ht.valid hhas)
    obtain rfl := Path.append_left_cancel heq
    exact ⟨_, hhas, (Path.below_cut_iff hd hx.ne_empty hz.ne_empty).2 hstart⟩

/-- There is a node at a name exactly if it is a variable or continued by one. -/
theorem has_iff (hx : Path.IsRelative x) : t.Has (d ++ "/" ++ x) ↔
    x ∈ env.keys ∨ ∃ y ∈ env.keys, Path.startsWith (x ++ "/") y = true := by
  rw [← h.blocked_iff ht hp hd hx, ← OrderedMap.contains_iff_mem_keys, h x]
  have hdx := Path.below_cut hd hx.ne_empty
  have hvalid := Path.isValid_cut hp hd hx
  constructor
  · intro hhas
    by_cases hblocked : t.Blocked (d ++ "/" ++ x)
    · exact Or.inr hblocked
    · refine Or.inl ⟨hhas, hdx, (ht.childless_iff hvalid).2 fun q hq hbelow => ?_⟩
      exact hblocked ⟨q, hq, hbelow⟩
  · rintro (⟨hhas, _⟩ | ⟨q, hq, hbelow⟩)
    · exact hhas
    · exact ht.ancestor hvalid hq hbelow

/-- The names that obstruct a change are those whose paths do. -/
theorem obstructed_iff {c : EnvChange} {writes : List (String × Bytes)}
    (hwrites : writes.map (·.1) = c.update.keys.map (d ++ "/" ++ ·))
    (hupdate : ∀ y ∈ c.update.keys, Path.IsRelative y) (hx : Path.IsRelative x) :
    t.Obstructed writes (d ++ "/" ++ x) ↔ c.Obstructs env x := by
  rw [Obstructed, EnvChange.Obstructs, hwrites]
  constructor
  · rintro ⟨hhas, q, hq, hbelow⟩
    by_cases hblocked : t.Blocked (d ++ "/" ++ x)
    · exact Or.inl ((h.blocked_iff ht hp hd hx).1 hblocked)
    · have hnew : ¬ t.Has q := fun hq => hblocked ⟨q, hq, hbelow⟩
      obtain ⟨y, hy, rfl⟩ := List.mem_map.1 (hq.resolve_left hnew)
      have hlisted := (h.has_iff ht hp hd hx).1 hhas
      rw [← h.blocked_iff ht hp hd hx, or_iff_left hblocked] at hlisted
      exact Or.inr ⟨hlisted, y, hy,
        (Path.below_cut_iff hd hx.ne_empty (hupdate y hy).ne_empty).1 hbelow⟩
  · rintro (hcontinued | ⟨hlisted, y, hy, hstart⟩)
    · obtain ⟨q, hq, hbelow⟩ := (h.blocked_iff ht hp hd hx).2 hcontinued
      exact ⟨(h.has_iff ht hp hd hx).2 (Or.inr hcontinued), q, Or.inl hq, hbelow⟩
    · refine ⟨(h.has_iff ht hp hd hx).2 (Or.inl hlisted), _, Or.inr (List.mem_map_of_mem hy), ?_⟩
      exact (Path.below_cut_iff hd hx.ne_empty (hupdate y hy).ne_empty).2 hstart

end Lists

/-! ## Runs -/

/-- The batch of a change. -/
def envBatch (t : Tree) (id : ReleaseId) (c : EnvChange) : Batch :=
  t.planned (Registry.variableCells id c.update)
    (c.delete.keys.map fun name => id.envPath ++ "/" ++ name)

section

variable {id : ReleaseId} {c : EnvChange}

/-- The writes of a change are made and then pruned if no name to delete obstructs them; else
they end at one that does. -/
theorem run_envWrites (ht : t.Sound) (hu : t.locked = none) (hthere : t.Has id.envPath)
    (henv : t.Lists id.envPath env) (hupdate : ∀ y ∈ c.update.keys, Path.IsRelative y)
    (hdelete : ∀ x ∈ c.delete.keys, Path.IsRelative x) :
    ((∀ x ∈ c.delete.keys, ¬ c.Obstructs env x) → ∃ t₁ gs t',
      Makes t (t.envBatch id c).calls t₁ ∧
      PrunesAbove id.envPath (t.envBatch id c).deletes t₁ gs t' ∧
      t.run (Registry.envWrites id c).run = (.ok (t.envBatch id c).summary, t')) ∧
    ((∃ x ∈ c.delete.keys, c.Obstructs env x) → ∃ applied x t', x ∈ c.delete.keys ∧
      c.Obstructs env x ∧ t.run (Registry.envWrites id c).run =
        (.error (Batch.failure applied (.delete (id.envPath ++ "/" ++ x))
          (.notEmpty (id.envPath ++ "/" ++ x))), t')) := by
  have hd := id.envPath_ne_root
  have hp := ht.valid hthere
  have hpath {x : String} (hx : Path.IsRelative x) := Path.isValid_cut hp hd hx
  have hwrites : ∀ w ∈ Registry.variableCells id c.update, Path.isValid w.1 = true := by
    intro w hw
    obtain ⟨o, ho, rfl⟩ := List.mem_map.1 hw
    exact hpath (hupdate o.1 (List.mem_map_of_mem ho))
  have hdeletes : ∀ p ∈ c.delete.keys.map (id.envPath ++ "/" ++ ·),
      Path.isValid p = true ∧ p ≠ Path.root := by
    refine List.forall_mem_map.2 fun x hx => ⟨hpath (hdelete x hx), ?_⟩
    exact Path.ne_root_cut hd (hdelete x hx).ne_empty
  have hobstructed {x : String} (hx : x ∈ c.delete.keys) :=
    henv.obstructed_iff ht hp hd (Registry.paths_variableCells id c.update) hupdate (hdelete x hx)
  obtain ⟨hmade, hstopped⟩ := run_apply_planned ht hu
    (Registry.paths_variableCells id c.update ▸ Path.pairwise_cut c.update.pairwise_keys _)
    (Path.pairwise_cut c.delete.pairwise_keys id.envPath) hwrites
    fun hroot => (hdeletes _ hroot).2 rfl
  rw [Registry.envWrites_eq, run_bind_ok (run_plan t hwrites fun p hp => (hdeletes p hp).1)]
  constructor
  · intro hfree
    obtain ⟨t₁, hmakes⟩ := hmade (List.forall_mem_map.2 fun x hx =>
      (hobstructed hx).not.2 (hfree x hx))
    obtain ⟨ht₁, hu₁⟩ := hmakes.sound ht
    have hparents : ∀ p ∈ (t.envBatch id c).deletes, ∀ g, Path.parent? p = some g →
        Path.isValid g = true := fun p hp g hg =>
      (Path.exists_name_of_parent (hdeletes p (mem_deletes_planned.1 hp).1).1 hg).1
    obtain ⟨gs, t', hprune, hprunes⟩ :=
      run_pruneGroups_prunes hp hd hparents ht₁ (hu₁.trans hu)
    refine ⟨t₁, gs, t', hmakes, hprunes, ?_⟩
    rw [run_bind_ok (hmakes.run_apply [])]
    exact run_bind_ok hprune
  · rintro ⟨x, hx, hobstructs⟩
    obtain ⟨applied, p, t', hmem, hobstructs', hrun⟩ :=
      hstopped ⟨_, List.mem_map_of_mem hx, (hobstructed hx).2 hobstructs⟩
    obtain ⟨y, hy, rfl⟩ := List.mem_map.1 hmem
    exact ⟨applied, y, t', hy, (hobstructed hy).1 hobstructs', run_bind_error hrun⟩

/-- What a change counts: all of its updates, and the deletions of variables. -/
theorem summary_envBatch (ht : t.Sound) (hthere : t.Has id.envPath)
    (henv : t.Lists id.envPath env) (hdelete : ∀ x ∈ c.delete.keys, Path.IsRelative x)
    (hfree : ∀ x ∈ c.delete.keys, ¬ c.Obstructs env x) :
    (t.envBatch id c).summary.created + (t.envBatch id c).summary.updated = c.update.size ∧
      (t.envBatch id c).summary.deleted =
        (c.delete.keys.filter fun x => env.contains x).length := by
  constructor
  · exact length_creates_add_updates.trans (List.length_map _)
  · show ((c.delete.keys.map fun name => id.envPath ++ "/" ++ name).filter _).length = _
    rw [List.filter_map, List.length_map]
    refine congrArg List.length (List.filter_congr fun x hx => ?_)
    have hnot : ¬ ∃ y ∈ env.keys, Path.startsWith (x ++ "/") y = true := fun hcontinued =>
      hfree x hx (Or.inl hcontinued)
    have hhas := henv.has_iff ht (ht.valid hthere) id.envPath_ne_root (hdelete x hx)
    rw [or_iff_left hnot, ← OrderedMap.contains_iff_mem_keys] at hhas
    exact (decide_eq_decide.2 hhas).trans (Bool.decide_coe _)

/-- A name that is deleted and not written has no node afterwards but a group of names that
were written. -/
theorem not_leaf_of_deleted {t₁ t' : Tree} {gs : List String} (ht : t.Sound)
    (hmakes : Makes t (t.envBatch id c).calls t₁)
    (hprunes : PrunesAbove id.envPath (t.envBatch id c).deletes t₁ gs t')
    (hx : x ∈ c.delete.keys) (hnew : x ∉ c.update.keys)
    (hhas : t'.Has (id.envPath ++ "/" ++ x)) : t'.childPaths (id.envPath ++ "/" ++ x) ≠ [] := by
  have ht₁ := (hmakes.sound ht).1
  have ht' := (hprunes.makes.sound ht₁).1
  obtain ⟨hhas₁, _⟩ := hprunes.makes.has_deletes.1 hhas
  obtain ⟨hthere | ⟨hvalid, w, hw, hxw⟩, hkept⟩ := (hmakes.has_batch ht).1 hhas₁
  · exact absurd (mem_deletes_planned.2 ⟨List.mem_map_of_mem hx, hthere⟩) hkept
  · obtain ⟨hcell, hmissing⟩ := mem_creates_planned.1 hw
    have hbelow : Path.Below (id.envPath ++ "/" ++ x) w.1 := by
      refine hxw.resolve_left fun heq => hnew ?_
      have hmem := List.mem_map_of_mem (f := Prod.fst) hcell
      rw [Registry.paths_variableCells, ← heq] at hmem
      obtain ⟨y, hy, hyx⟩ := List.mem_map.1 hmem
      rwa [← Path.append_left_cancel hyx]
    -- What is created is not pruned: pruning goes up from what was there before.
    have hcreated : t₁.Has w.1 := by
      refine (hmakes.has_batch ht).2 ⟨Or.inr ⟨?_, w, hw, Or.inl rfl⟩, fun hmem => ?_⟩
      · exact hmakes.valid_planned ht w hcell
      · exact hmissing (mem_deletes_planned.1 hmem).2
    have hstays : w.1 ∉ gs := by
      intro hmem
      obtain ⟨_, ⟨p, hp, hancestor⟩, _⟩ := hprunes.deleted _ hmem
      have hthere := (mem_deletes_planned.1 hp).2
      obtain ⟨hvalid, hbelow⟩ := (Path.mem_ancestors_iff (ht.valid hthere)).1 hancestor
      exact hmissing (ht.ancestor hvalid hthere hbelow)
    rw [ne_eq, ht'.childless_iff hvalid]
    exact fun hnone => hnone w.1 (hprunes.makes.has_deletes.2 ⟨hcreated, hstays⟩) hbelow

end

end Tree

/-! ## Requests -/

namespace EnvChange

/-- What a change that was applied has done to the variables: all that it updates is written,
and of what it deletes the variables are deleted. A variable that it stored is listed unless
another name continues it, be it one that is listed or one whose deletion pruned it. -/
structure Applied (c : EnvChange) (env env' : Env) (n : ChangeSummary) : Prop where
  written : n.created + n.updated = c.update.size
  deleted : n.deleted = (c.delete.keys.filter fun x => env.contains x).length
  gone : ∀ x ∈ c.delete.keys, x ∉ c.update.keys → x ∉ env'.keys
  stored : ∀ x v, c.update.get? x = some v → x ∉ c.delete.keys →
    env'.get? x = some v ∨ (∃ y ∈ env'.keys, Path.startsWith (x ++ "/") y = true) ∨
      (v = "" ∧ ∃ y ∈ c.delete.keys, Path.startsWith (x ++ "/") y = true)

end EnvChange

namespace EnvRequest

variable {id : ReleaseId} {s : Service} {c : EnvChange} {env : Env} {r : Nat}

/-- A save at the current revision makes the writes of its change. -/
theorem serve_save (hs : s.faults = []) (ht : s.tree.Sound)
    (hr : s.tree.revision? id.envPath = some r) {reply : Except RegistryError ChangeSummary}
    {t' : Tree} (h : s.tree.run (Registry.envWrites id c).run = (reply, t')) :
    ((EnvRequest.save c r).serve id s).1 = reply.map Answer.summary ∧
      ((EnvRequest.save c r).serve id s).2.tree = t' := by
  have hp := ht.valid (Tree.has_iff_revision?.2 ⟨r, hr⟩)
  obtain ⟨hreply, htree, _⟩ :=
    Service.run_of_faults_eq_nil ((EnvRequest.save c r).action id).run hs
  have hrun : s.tree.run ((EnvRequest.save c r).action id).run =
      (reply.map Answer.summary, t') := by
    have hmap := Tree.run_map (t := s.tree) (Registry.standard.saveEnv id c r) Answer.summary
    refine hmap.trans ?_
    rw [Registry.saveEnv_standard, Tree.run_checked_of_eq hp hr rfl, h]
  rw [hrun] at hreply htree
  exact ⟨hreply, htree⟩

/-- What a complete request stores and does not delete was written last. -/
theorem lastWritten_of_complete {q : EnvRequest} (h : Served.Complete id ⟨s, q⟩) {x v : String}
    (hx : q.update.get? x = some v) (hkept : x ∉ q.drops) :
    ∃ after, LastWritten (q.writes id s) (id.envPath ++ "/" ++ x) (Text.Utf8.encode v) after := by
  have hcell : (id.envPath ++ "/" ++ x, Text.Utf8.encode v) ∈
      Registry.variableCells id q.update :=
    List.mem_map_of_mem (OrderedMap.get?_eq_some_iff.1 hx)
  have hsame : ∀ call ∈ q.writes id s, call.path = id.envPath ++ "/" ++ x →
      call.stored? = some (id.envPath ++ "/" ++ x, Text.Utf8.encode v) := by
    intro call hcall hpath
    have hasked := (List.mem_filter.1 hcall).2
    have hstored {p : String} {w : Bytes} (hpath : p = id.envPath ++ "/" ++ x)
        (hw : (p, w) ∈ Registry.variableCells id q.update) :
        some (p, w) = some (id.envPath ++ "/" ++ x, Text.Utf8.encode v) := by
      obtain ⟨o, ho, heq⟩ := List.mem_map.1 hw
      cases heq
      have hname : o.1 = x := Path.append_left_cancel hpath
      have hvalue := OrderedMap.get?_eq_some_iff.2 ho
      rw [hname, hx] at hvalue
      rw [hname, Option.some.inj hvalue]
    cases call with
    | create p w => exact hstored hpath (of_decide_eq_true hasked)
    | set p w => exact hstored hpath (of_decide_eq_true hasked)
    | delete p =>
      obtain ⟨y, hy, hyx⟩ := List.mem_map.1 (of_decide_eq_true hasked)
      exact absurd (Path.append_left_cancel (hyx.trans hpath) ▸ hy) hkept
    | get p => cases hasked
    | visit p enter => cases hasked
  rcases h.stored _ hcell with hcreate | hset
  · exact lastWritten_of_same hcreate rfl hsame
  · exact lastWritten_of_same hset rfl hsame

theorem faultFree_serveAll (hs : s.FaultFree) (requests : List EnvRequest) :
    (serveAll id s requests).FaultFree := by
  induction requests generalizing s with
  | nil => exact hs
  | cons q rest ih => exact ih (hs.run (q.action id).run)

section

variable {log : List Call} {idle : String → Prop} (h : s.tree.Logged id.envPath log idle)
variable (hs : s.FaultFree) (hthere : s.tree.Has id.envPath)
variable (hr : s.tree.revision? id.envPath = some r) (hc : (EnvRequest.save c r).Named)

include h hs hthere hc in
/-- What a save stores and does not delete is listed afterwards, unless another name continues
it. -/
theorem stored_of_save (hok : ((EnvRequest.save c r).serve id s).1.isOk = true) :
    ∃ env' r', listed? (EnvRequest.read.serve id ((EnvRequest.save c r).serve id s).2).1 =
        some (env', r') ∧
      ∀ x v, c.update.get? x = some v → x ∉ c.delete.keys →
        env'.get? x = some v ∨ (∃ y ∈ env'.keys, Path.startsWith (x ++ "/") y = true) ∨
          (v = "" ∧ ∃ y ∈ c.delete.keys, Path.startsWith (x ++ "/") y = true) := by
  have hpassage := passage_serve id (.save c r) h.sound hthere
  obtain ⟨env', r', hread, hkept⟩ := listed_or_hidden (h.serve (q := .save c r) hs.faults hc)
    (faults_serve id (.save c r) hs.faults) hpassage.has
  refine ⟨env', r', hread, fun x v hx hnot => ?_⟩
  obtain ⟨after, hlast⟩ := lastWritten_of_complete (complete_of_isOk hs.faults hok) hx hnot
  refine (hkept x v after (lastWritten_append.2 (Or.inl hlast))).imp_right fun hor => ?_
  refine hor.imp_right (And.imp_right fun ⟨y, hy, hstart⟩ => ?_)
  obtain ⟨before, call, heq, _⟩ := hlast
  have hmem : .delete (id.envPath ++ "/" ++ y) ∈ (EnvRequest.save c r).writes id s := by
    rw [heq]
    exact List.mem_append_right _ (List.mem_cons_of_mem _ hy)
  obtain ⟨z, hz, hzy⟩ := List.mem_map.1 (of_decide_eq_true (List.mem_filter.1 hmem).2)
  rw [← Path.append_left_cancel hzy] at hstart
  exact ⟨z, hz, hstart⟩

include h hs hthere hr hc

/-- A change that nothing obstructs is applied. -/
theorem applied_of_unobstructed (henv : s.tree.Lists id.envPath env)
    (hfree : ∀ x ∈ c.delete.keys, ¬ c.Obstructs env x) :
    ∃ n env' r', saved? ((EnvRequest.save c r).serve id s).1 = some n ∧
      listed? (EnvRequest.read.serve id ((EnvRequest.save c r).serve id s).2).1 =
        some (env', r') ∧
      c.Applied env env' n := by
  have ht := h.sound
  obtain ⟨hupdate, hdelete⟩ := hc
  obtain ⟨t₁, gs, t', hmakes, hprunes, hrun⟩ :=
    (Tree.run_envWrites ht hs.unlocked hthere henv hupdate hdelete).1 hfree
  obtain ⟨hreply, htree⟩ := serve_save hs.faults ht hr hrun
  obtain ⟨hwritten, hdeleted⟩ := Tree.summary_envBatch ht hthere henv hdelete hfree
  obtain ⟨env', r', hread, hstored⟩ := stored_of_save h hs hthere ⟨hupdate, hdelete⟩ (by
    rw [hreply]
    rfl)
  refine ⟨(s.tree.envBatch id c).summary, env', r', ?_, hread, hwritten, hdeleted, ?_, hstored⟩
  · rw [hreply]
    rfl
  · intro x hx hnew hlisted
    obtain ⟨⟨_, hget⟩, _⟩ := getEnv_of_read id hread
    obtain ⟨_, henv'⟩ :=
      Service.names_of_getEnv (passage_serve id (.save c r) ht hthere).sound hget
    obtain ⟨hhas, _, hleaf⟩ := (henv' x).1 (OrderedMap.contains_iff_mem_keys.2 hlisted)
    rw [htree] at hhas hleaf
    exact Tree.not_leaf_of_deleted ht hmakes hprunes hx hnew hhas hleaf

end

/-- Once the root was created, and whatever was requested since: a change at the revision that
reading gives is applied to its end if no name that it deletes is obstructed. Otherwise it fails
since the node of such a name is not empty. -/
theorem applied_unless_obstructed (hs : s.FaultFree) (hreachable : s.tree.Reachable) {vars : Env}
    {rest : List EnvRequest} (hnamed : ∀ q ∈ .new vars :: rest, q.Named)
    (hnew : ((EnvRequest.new vars).serve id s).1.isOk = true) :
    let now := serveAll id s (.new vars :: rest)
    ∃ env r, listed? (EnvRequest.read.serve id now).1 = some (env, r) ∧
      ∀ c : EnvChange, (EnvRequest.save c r).Named →
        let served := (EnvRequest.save c r).serve id now
        ((∀ x ∈ c.delete.keys, ¬ c.Obstructs env x) → ∃ n env' r', saved? served.1 = some n ∧
          listed? (EnvRequest.read.serve id served.2).1 = some (env', r') ∧
          c.Applied env env' n) ∧
        ((∃ x ∈ c.delete.keys, c.Obstructs env x) → ∃ applied x, x ∈ c.delete.keys ∧
          c.Obstructs env x ∧ served.1 = .error (Batch.failure applied
            (.delete (id.envPath ++ "/" ++ x)) (.notEmpty (id.envPath ++ "/" ++ x)))) := by
  intro now
  obtain ⟨hmissing, hcreated⟩ := has_of_new hnew
  have hlogged := (logged_of_missing hs hreachable hmissing).serveAll hs.faults hnamed
  have hfirst : ((EnvRequest.new vars).serve id s).2.tree.Sound :=
    Service.sound_run _ hreachable.sound
  have hthere : now.tree.Has id.envPath := (passage_serveAll id rest hfirst hcreated).has
  have hnow : now.FaultFree := faultFree_serveAll hs _
  obtain ⟨env, r, _, hread, _⟩ := exists_listed hlogged hnow.faults hthere
  obtain ⟨⟨_, hget⟩, _⟩ := getEnv_of_read id hread
  obtain ⟨hr, henv⟩ := Service.names_of_getEnv hlogged.sound hget
  refine ⟨env, r, hread, ?_⟩
  intro c hc served
  refine ⟨applied_of_unobstructed hlogged hnow hthere hr hc henv, fun hobstructed => ?_⟩
  obtain ⟨applied, x, t', hx, hobstructs, hrun⟩ :=
    (Tree.run_envWrites hlogged.sound hnow.unlocked hthere henv hc.1 hc.2).2 hobstructed
  obtain ⟨hreply, _⟩ := serve_save hnow.faults hlogged.sound hr hrun
  exact ⟨applied, x, hx, hobstructs, hreply⟩

end EnvRequest

namespace Replaced

/-- A release. -/
def id : ReleaseId := ⟨"d", "s", "v"⟩

/-- A variable, a variable in a group, and the same that another name continues. -/
def vars : Env :=
  (((OrderedMap.empty.insert "a" "1").insert "db/HOST" "h").insert "e" "2").insert "e/f" "3"

/-- What reading lists of it. -/
def listed : Env := ((OrderedMap.empty.insert "a" "1").insert "db/HOST" "h").insert "e/f" "3"

def created : Service := EnvRequest.serveAll id .fresh [.new vars]

/-- A change that makes the group a variable, and deletes a name that is missing. -/
def replacement : EnvChange :=
  ⟨OrderedMap.empty.insert "db" "u", (OrderedMap.empty.insert "db/HOST" ()).insert "k" ()⟩

/-- A change that makes a variable a group. -/
def opposite : EnvChange := ⟨OrderedMap.empty.insert "a/b" "4", OrderedMap.empty.insert "a" ()⟩

/-- A change that deletes a name that is no variable but a group. -/
def group : EnvChange := ⟨.empty, OrderedMap.empty.insert "db" ()⟩

/-- A change that deletes all that was created under two names. -/
def both : EnvChange := ⟨.empty, (OrderedMap.empty.insert "e" ()).insert "e/f" ()⟩

/-- What a save of the change is answered. -/
def reply (c : EnvChange) : Except RegistryError Answer :=
  ((EnvRequest.save c 3).serve id created).1

/-- The group is replaced by a variable, and the missing name is skipped. -/
theorem group_replaced :
    ((EnvRequest.new vars).serve id .fresh).1.isOk = true ∧
      (∀ x ∈ replacement.delete.keys, ¬ replacement.Obstructs listed x) ∧
      ∃ env' r', EnvRequest.saved? (reply replacement) = some ⟨0, 1, 1⟩ ∧
        EnvRequest.listed? (EnvRequest.read.serve id
          ((EnvRequest.save replacement 3).serve id created).2).1 = some (env', r') ∧
        replacement.Applied listed env' ⟨0, 1, 1⟩ := by
  have hnamed : ∀ q ∈ [EnvRequest.new vars], q.Named := by decide +kernel
  have hnew : ((EnvRequest.new vars).serve id .fresh).1.isOk = true := by decide +kernel
  have hread : EnvRequest.listed? (EnvRequest.read.serve id created).1 = some (listed, 3) := by
    decide +kernel
  have hfree : ∀ x ∈ replacement.delete.keys, ¬ replacement.Obstructs listed x := by
    decide +kernel
  have hsaved : EnvRequest.saved? (reply replacement) = some ⟨0, 1, 1⟩ := by decide +kernel
  obtain ⟨env, r, hread', happly⟩ := @EnvRequest.applied_unless_obstructed id .fresh ⟨rfl, rfl⟩
    .empty vars [] hnamed hnew
  cases hread.symm.trans hread'
  obtain ⟨n, env', r', hn, hafter, happlied⟩ := (happly replacement (by decide +kernel)).1 hfree
  cases hsaved.symm.trans hn
  exact ⟨hnew, hfree, env', r', hsaved, hafter, happlied⟩

/-- A group is not skipped, a variable is not replaced by a group, and a node does not go
together with the one below it: changes at the current revision fail, and the second midway. -/
theorem not_applied :
    EnvRequest.listed? (EnvRequest.read.serve id created).1 = some (listed, 3) ∧
      (∀ c ∈ [group, opposite, both], (EnvRequest.save c 3).Named ∧
        ∀ x ∈ c.delete.keys, x ∉ c.update.keys) ∧
      "db" ∉ listed.keys ∧ reply group = .error (.tree (.notEmpty "/d/s/v/env/db")) ∧
      reply opposite = .error (.partiallyApplied ["/d/s/v/env/a/b"] "/d/s/v/env/a"
        (.notEmpty "/d/s/v/env/a")) ∧
      reply both = .error (.tree (.notEmpty "/d/s/v/env/e")) :=
  ⟨by decide +kernel, by decide +kernel, by decide +kernel,
    eq_of_treeError? (by decide +kernel), eq_of_progress? (by decide +kernel),
    eq_of_treeError? (by decide +kernel)⟩

end Replaced

end Coordination
