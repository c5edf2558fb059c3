import Coordination.Proofs.Reload.Cycle
import Coordination.Proofs.Tree.Effects

/-!
# What a live pointer touches

Storing a value creates its node or replaces the value. The last event is at the node itself,
and all others are above it. Making a release live stores two values, the pointer and the node
that watchers watch; so unless the first store touches that node as well, the only event there
is the last one of all. With the standard templates it never does.
-/

namespace Coordination

namespace Tree

variable {t : Tree} {p : String}

/-- The events lead up to one at the path itself, all others being above it; that one says
whether the node is new. -/
structure Announces (t : Tree) (p : String) (earlier : List Event) (last : Event) : Prop where
  path : last.path = p
  kind : last.kind = .created ∧ ¬ t.Has p ∨ last.kind = .changed ∧ t.Has p
  earlier : ∀ e ∈ earlier, e.kind ≠ .disconnected ∧ Path.Below e.path p

theorem Announces.not_lost {earlier : List Event} {last : Event}
    (h : t.Announces p earlier last) : ∀ e ∈ earlier ++ [last], e.kind ≠ .disconnected := by
  intro e he
  rcases List.mem_append.1 he with he | he
  · exact (h.earlier e he).1
  · obtain rfl : e = last := by simpa using he
    rcases h.kind with ⟨hkind, _⟩ | ⟨hkind, _⟩ <;> simp [hkind]

theorem events_plantAll (t : Tree) {l : List String} {e : Event} (h : e ∈ (t.plantAll l).2) :
    e.kind ≠ .disconnected ∧ ∃ q ∈ l, e.path = q ∨ Path.parent? q = some e.path := by
  induction l with
  | nil => exact absurd h List.not_mem_nil
  | cons q rest ih =>
    have hevents : (t.plantAll (q :: rest)).2 =
        (t.plantAll rest).2 ++ ((t.plantAll rest).1.plant q []).2 := rfl
    rw [hevents] at h
    rcases List.mem_append.1 h with h | h
    · obtain ⟨hkind, q', hq', hpath⟩ := ih h
      exact ⟨hkind, q', List.mem_cons_of_mem _ hq', hpath⟩
    · rw [plant] at h
      cases hparent : Path.parent? q with
      | none =>
        rw [hparent] at h
        obtain rfl : e = ⟨.created, q⟩ := by simpa using h
        exact ⟨by simp, q, List.mem_cons_self, Or.inl rfl⟩
      | some parent =>
        rw [hparent] at h
        have hcases : e = ⟨.childrenChanged, parent⟩ ∨ e = ⟨.created, q⟩ := by simpa using h
        rcases hcases with rfl | rfl
        · exact ⟨by simp, q, List.mem_cons_self, Or.inr hparent⟩
        · exact ⟨by simp, q, List.mem_cons_self, Or.inl rfl⟩

theorem created_mem_events_plantAll (t : Tree) {l : List String} {q : String} (h : q ∈ l) :
    ⟨.created, q⟩ ∈ (t.plantAll l).2 := by
  induction l with
  | nil => exact absurd h List.not_mem_nil
  | cons q' rest ih =>
    have hevents : (t.plantAll (q' :: rest)).2 =
        (t.plantAll rest).2 ++ ((t.plantAll rest).1.plant q' []).2 := rfl
    rw [hevents, List.mem_append]
    rcases List.mem_cons.1 h with rfl | h
    · right
      rw [plant]
      cases Path.parent? q <;> simp
    · exact Or.inl (ih h)

theorem announces_create (ht : t.Sound) {v : Bytes} {w : Written Node}
    (h : t.create p v = .ok w) :
    ∃ earlier last, w.events = earlier ++ [last] ∧ t.Announces p earlier last := by
  obtain ⟨hvalid, hmissing, -⟩ := created_of_create h
  have hroot : p ≠ Path.root := by
    rintro rfl
    exact hmissing ht.root
  obtain ⟨parent, _, _, _, _, hparent⟩ := Path.exists_parent hvalid hroot
  refine ⟨(t.plantAll (t.missingAncestors p)).2 ++ [⟨.childrenChanged, parent⟩],
    ⟨.created, p⟩, ?_, rfl, Or.inl ⟨rfl, hmissing⟩, ?_⟩
  · rw [events_of_create h, events_plant hparent, List.append_assoc]
    rfl
  · intro e he
    rcases List.mem_append.1 he with he | he
    · obtain ⟨hkind, q, hq, hpath⟩ := events_plantAll t he
      obtain ⟨hqvalid, hbelow, -⟩ := (mem_missingAncestors_iff ht hvalid).1 hq
      rcases hpath with hpath | hpath
      · exact ⟨hkind, by rw [hpath]; exact hbelow⟩
      · exact ⟨hkind, Path.below_trans (Path.below_of_parent hqvalid hpath) hbelow⟩
    · obtain rfl : e = ⟨.childrenChanged, parent⟩ := by simpa using he
      exact ⟨by simp, Path.below_of_parent hvalid hparent⟩

theorem announces_set {v : Bytes} {w : Written Node} (h : t.set p v = .ok w) :
    ∃ earlier last, w.events = earlier ++ [last] ∧ t.Announces p earlier last := by
  obtain ⟨c, hc, -⟩ := written_of_set h
  have hhas : t.Has p := has_iff_get?.2 ⟨c, hc⟩
  refine ⟨[], ⟨.changed, p⟩, ?_, rfl, Or.inr ⟨rfl, hhas⟩, ?_⟩
  · rw [events_of_set h]
    rfl
  · intro e he
    exact absurd he List.not_mem_nil

end Tree

namespace Service

variable {s s' : Service} {p : String}

theorem answer_eq_of_faults_eq_nil (hs : s.faults = []) (c : Call) :
    s.answer c = ((s.tree.answer c).1,
      { s with tree := (s.tree.answer c).2.1, events := s.events ++ (s.tree.answer c).2.2 }) := by
  cases s with
  | mk tree faults events =>
    obtain rfl : faults = [] := hs
    rfl

/-- What storing a value at a path does where no call is made to fail. -/
structure Puts (p : String) (s s' : Service) (earlier : List Event) (last : Event) : Prop where
  faults : s'.faults = []
  sound : s'.tree.Sound
  events : s'.events = s.events ++ (earlier ++ [last])
  announces : s.tree.Announces p earlier last
  /-- A node that comes about is told of. -/
  others : ∀ q, (∀ e ∈ earlier ++ [last], e.path ≠ q) → (s'.tree.Has q ↔ s.tree.Has q)

theorem puts_create (hs : s.faults = []) (hsound : s.tree.Sound) {v : Bytes} {n : Node}
    (h : (s.answer (.create p v)).1 = .ok n) :
    ∃ earlier last, Puts p s (s.answer (.create p v)).2 earlier last := by
  rw [answer_eq_of_faults_eq_nil hs] at h ⊢
  have hanswer : s.tree.answer (.create p v) = Written.outcome s.tree (s.tree.create p v) := rfl
  rw [hanswer] at h ⊢
  cases hcreate : s.tree.create p v with
  | error e =>
    rw [hcreate] at h
    cases h
  | ok w =>
    obtain ⟨hvalid, hmissing, htree⟩ := Tree.created_of_create hcreate
    obtain ⟨earlier, last, hevents, hannounces⟩ := Tree.announces_create hsound hcreate
    refine ⟨earlier, last, hs, ?_, congrArg (s.events ++ ·) hevents, hannounces, ?_⟩
    · show w.tree.Sound
      rw [htree]
      exact Tree.sound_created hsound hvalid v
    · intro q huntold
      show w.tree.Has q ↔ _
      rw [htree, Tree.has_created hsound hvalid]
      constructor
      · rintro (rfl | ⟨hqvalid, hbelow⟩ | hhas)
        · exact absurd hannounces.path (huntold last (by simp))
        · refine Classical.byContradiction fun hnot => ?_
          have hmem := (Tree.mem_missingAncestors_iff hsound hvalid).2 ⟨hqvalid, hbelow, hnot⟩
          have hcreated : ⟨.created, q⟩ ∈ earlier ++ [last] := by
            rw [← hevents, Tree.events_of_create hcreate]
            exact List.mem_append_left _ (Tree.created_mem_events_plantAll s.tree hmem)
          exact huntold _ hcreated rfl
        · exact hhas
      · exact fun hhas => Or.inr (Or.inr hhas)

theorem puts_set (hs : s.faults = []) (hsound : s.tree.Sound) {v : Bytes} {n : Node}
    (h : (s.answer (.set p v)).1 = .ok n) :
    ∃ earlier last, Puts p s (s.answer (.set p v)).2 earlier last := by
  rw [answer_eq_of_faults_eq_nil hs] at h ⊢
  have hanswer : s.tree.answer (.set p v) = Written.outcome s.tree (s.tree.set p v) := rfl
  rw [hanswer] at h ⊢
  cases hset : s.tree.set p v with
  | error e =>
    rw [hset] at h
    cases h
  | ok w =>
    obtain ⟨c, hc, htree⟩ := Tree.written_of_set hset
    obtain ⟨earlier, last, hevents, hannounces⟩ := Tree.announces_set hset
    refine ⟨earlier, last, hs, ?_, congrArg (s.events ++ ·) hevents, hannounces, ?_⟩
    · show w.tree.Sound
      rw [htree]
      exact Tree.sound_written hsound hc v
    · intro q _
      show w.tree.Has q ↔ _
      rw [htree]
      exact Tree.has_written hc

/-- A call that fails leaves a service without faults as it is. -/
theorem answer_error_eq (hs : s.faults = []) {c : Call} {e : TreeError}
    (h : (s.answer c).1 = .error e) : s.answer c = (.error e, s) := by
  rw [answer_eq_of_faults_eq_nil hs] at h ⊢
  have htree : (s.tree.answer c).2 = (s.tree, []) := Tree.answer_of_error h
  refine Prod.ext h ?_
  rw [htree]
  simp

theorem puts_put (hs : s.faults = []) (hsound : s.tree.Sound) {v : Bytes}
    (h : s.run (Action.put p v).run = (.ok (), s')) :
    ∃ earlier last, Puts p s s' earlier last := by
  obtain ⟨reply, s₁, hattempt, hrest⟩ := exists_of_run_bind_eq_ok h
  obtain ⟨rfl, rfl⟩ := eq_of_run_attempt hattempt
  cases hcreate : (s.answer (.create p v)).1 with
  | ok n =>
    rw [hcreate] at hrest
    cases hrest
    exact puts_create hs hsound hcreate
  | error e =>
    rw [answer_error_eq hs hcreate] at hrest
    cases e with
    | alreadyExists path =>
      obtain ⟨n, s₂, hnode, hset⟩ := exists_of_run_bind_eq_ok hrest
      have hsame : s₂ = s := by
        have hservice := (Action.reads_node p).service hs
        rwa [hnode] at hservice
      rw [hsame] at hset
      obtain ⟨n', s₃, hcall, hdone⟩ := exists_of_run_bind_eq_ok hset
      obtain ⟨hanswer, rfl⟩ := answer_of_run_call hcall
      cases hdone
      exact puts_set hs hsound hanswer
    | _ => cases hrest

end Service

/-! ## Making a release live -/

namespace Registry

variable {r : Registry} {s s' : Service} {p : LivePointer}

theorem puts_store {e : Entry} (hs : s.faults = []) (hsound : s.tree.Sound)
    (h : s.run (r.store e).run = (.ok (), s')) :
    ∃ path earlier last, r.templates.path e = .ok path ∧
      Service.Puts path s s' earlier last := by
  obtain ⟨w, s₁, hderive, hput⟩ := Service.exists_of_run_bind_eq_ok h
  rw [derive_eq] at hderive
  obtain ⟨hcell, hsame⟩ := Service.eq_ok_of_run_ofTemplate hderive
  rw [hsame] at hput
  obtain ⟨earlier, last, hputs⟩ := Service.puts_put hs hsound hput
  refine ⟨w.1, earlier, last, ?_, hputs⟩
  rw [TemplateSet.path]
  rw [cell] at hcell
  cases hvalue : r.templates.derive e with
  | error e => rw [hvalue] at hcell; cases hcell
  | ok found =>
    rw [hvalue] at hcell
    cases hcell
    rfl

/-- Where storing the pointer does not touch the watched node, making a release live touches
this node last, and once. -/
theorem events_of_setLive {watched : String} (hs : s.faults = []) (hsound : s.tree.Sound)
    (hidle : s.events = [])
    (hwatched : r.templates.path (.liveWatch p.domain p.service) = .ok watched)
    (huntouched : ∀ e ∈ (s.run (r.store (.live p)).run).2.events, e.path ≠ watched)
    (h : s.run (r.setLive p).run = (.ok (), s')) :
    s'.faults = [] ∧ ∃ earlier last, s'.events = earlier ++ [last] ∧ last.path = watched ∧
      (last.kind = .created ∧ ¬ s.tree.Has watched ∨ last.kind = .changed ∧ s.tree.Has watched) ∧
      (∀ e ∈ earlier ++ [last], e.kind ≠ .disconnected) ∧ ∀ e ∈ earlier, e.path ≠ watched := by
  obtain ⟨_, s₁, hfirst, hsecond⟩ := Service.exists_of_run_bind_eq_ok h
  obtain ⟨live, earlier, last, -, hputs⟩ := puts_store hs hsound hfirst
  obtain ⟨path, earlier', last', hpath, hputs'⟩ := puts_store hputs.faults hputs.sound hsecond
  obtain rfl : watched = path := Except.ok.inj (hwatched.symm.trans hpath)
  have hevents : s₁.events = earlier ++ [last] := by
    rw [hputs.events, hidle, List.nil_append]
  rw [hfirst, hevents] at huntouched
  refine ⟨hputs'.faults, earlier ++ [last] ++ earlier', last', ?_, hputs'.announces.path, ?_,
    ?_, ?_⟩
  · rw [hputs'.events, hevents]
    simp only [List.append_assoc]
  · rw [← hputs.others watched huntouched]
    exact hputs'.announces.kind
  · intro e he
    rw [List.append_assoc] at he
    rcases List.mem_append.1 he with he | he
    · exact hputs.announces.not_lost e he
    · exact hputs'.announces.not_lost e he
  · intro e he
    rcases List.mem_append.1 he with he | he
    · exact huntouched e he
    · exact (hputs'.announces.earlier e he).2.ne

/-- The path of the live pointer of a service. -/
def livePath (domain service : String) : String := "/" ++ domain ++ "/" ++ service ++ "/live"

theorem path_live (p : LivePointer) :
    TemplateSet.standard.path (.live p) = .ok (livePath p.domain p.service) := rfl

theorem path_liveWatch (domain service : String) :
    TemplateSet.standard.path (.liveWatch domain service) =
      .ok (livePath domain service ++ "/" ++ "watch") := by
  have hrender : TemplateSet.standard.path (.liveWatch domain service) =
      .ok ("/" ++ domain ++ "/" ++ service ++ "/live/watch") := rfl
  have hslash : "/live/watch" = "/live" ++ "/" ++ "watch" := rfl
  rw [hrender, livePath, hslash]
  simp only [String.append_assoc]

theorem livePath_ne_root (domain service : String) : livePath domain service ≠ Path.root := by
  intro h
  have hlength := congrArg (fun s : String => s.toList.length) h
  have hroot : Path.root.toList.length = 1 := rfl
  have hlive : "/live".toList.length = 5 := rfl
  simp only [livePath, String.toList_append, List.length_append] at hlength
  omega

/-- The standard templates place the watched node below the pointer. -/
theorem below_livePath (domain service : String) :
    Path.Below (livePath domain service) (livePath domain service ++ "/" ++ "watch") :=
  Path.below_cut (livePath_ne_root domain service) (by decide)

/-- So with these, storing the pointer does not touch the watched node. -/
theorem untouched_of_standard {watched : String} (hs : s.faults = []) (hsound : s.tree.Sound)
    (hidle : s.events = [])
    (hwatched : TemplateSet.standard.path (.liveWatch p.domain p.service) = .ok watched)
    (h : s.run (store ⟨.standard⟩ (.live p)).run = (.ok (), s')) :
    ∀ e ∈ s'.events, e.path ≠ watched := by
  obtain ⟨live, earlier, last, hlive, hputs⟩ := puts_store hs hsound h
  obtain rfl : livePath p.domain p.service = live :=
    Except.ok.inj ((path_live p).symm.trans hlive)
  obtain rfl : livePath p.domain p.service ++ "/" ++ "watch" = watched :=
    Except.ok.inj ((path_liveWatch p.domain p.service).symm.trans hwatched)
  have hbelow := below_livePath p.domain p.service
  intro e he
  rw [hputs.events, hidle, List.nil_append] at he
  rcases List.mem_append.1 he with he | he
  · exact (Path.below_trans (hputs.announces.earlier e he).2 hbelow).ne
  · obtain rfl : e = last := by simpa using he
    rw [hputs.announces.path]
    exact hbelow.ne

end Registry

end Coordination
