import Coordination.Proofs.Registry.Steps

/-!
# Reads and checks in any case

Also where calls are made to fail, an action that succeeds has read what the tree holds, an
action that only reads changes nothing, and the check of a revision refuses exactly if the
directory is read and is at another revision.
-/

namespace Coordination

namespace Call

/-- The call writes nothing. -/
def IsRead : Call → Prop
  | .get _ | .visit .. => True
  | _ => False

theorem IsRead.tree {c : Call} (hc : c.IsRead) (s : Service) : (s.answer c).2.tree = s.tree := by
  rcases s.answer_cases c with ⟨_, htree⟩ | ⟨_, htree⟩
  · exact htree
  · rw [htree]
    cases c with
    | get p => rfl
    | visit p enter => rfl
    | create p v => exact hc.elim
    | set p v => exact hc.elim
    | delete p => exact hc.elim

end Call

/-! ## Reads -/

namespace Service

variable {α β : Type} {s s' : Service}

theorem sound_run {α : Type} (p : Program α) {s : Service} (hs : s.tree.Sound) :
    (s.run p).2.tree.Sound := by
  induction p generalizing s with
  | done a => exact hs
  | call c next ih => exact ih _ ((s.change_answer c).sound hs)

theorem exists_of_run_bind_eq_ok {x : Action α} {f : α → Action β} {b : β}
    (h : s.run (x >>= f).run = (.ok b, s')) :
    ∃ a s₁, s.run x.run = (.ok a, s₁) ∧ s₁.run (f a).run = (.ok b, s') :=
  Action.exists_of_run_bind_eq_ok h

theorem eq_of_run_attempt {c : Call} {reply : Except TreeError c.Reply}
    (h : s.run (Action.attempt c).run = (.ok reply, s')) :
    reply = (s.answer c).1 ∧ s' = (s.answer c).2 := by
  have hanswer : (Except.ok (s.answer c).1, (s.answer c).2) =
      ((Except.ok reply : Except RegistryError _), s') := h
  obtain ⟨hreply, hservice⟩ := Prod.mk.inj hanswer
  exact ⟨(Except.ok.inj hreply).symm, hservice.symm⟩

/-- A call that succeeds was answered by the tree. -/
theorem respond_of_answer {c : Call} {reply : c.Reply} (h : (s.answer c).1 = .ok reply) :
    s.tree.respond c = (.ok reply, (s.answer c).2.tree) := by
  rcases s.answer_cases c with ⟨⟨e, he⟩, _⟩ | ⟨hreply, htree⟩
  · rw [he] at h
    cases h
  · rw [htree, ← h, hreply]

/-- An action that is a call succeeds with what the call is answered. -/
theorem answer_of_run_call {c : Call} {reply : c.Reply}
    (h : s.run (Action.call c).run = (.ok reply, s')) :
    (s.answer c).1 = .ok reply ∧ s' = (s.answer c).2 := by
  obtain ⟨result, s₁, hattempt, h⟩ := exists_of_run_bind_eq_ok h
  obtain ⟨hresult, rfl⟩ := eq_of_run_attempt hattempt
  cases result with
  | error e => cases h
  | ok reply' =>
    cases h
    exact ⟨hresult.symm, rfl⟩

/-- A node that is read is in the tree, and reading it changes nothing. -/
theorem exists_of_run_node_eq_ok {p : String} {n : Node}
    (h : s.run (Action.node p).run = (.ok n, s')) :
    s'.tree = s.tree ∧ ∃ c, s.tree.cells.get? p = some c ∧ n = s.tree.nodeOf p c := by
  obtain ⟨reply, s₁, hattempt, h⟩ := exists_of_run_bind_eq_ok h
  obtain ⟨hreply, rfl⟩ := eq_of_run_attempt hattempt
  cases reply with
  | error e => cases e <;> cases h
  | ok m =>
    cases h
    exact ⟨Call.IsRead.tree (c := .get p) trivial s,
      Tree.exists_get?_of_get (congrArg Prod.fst (respond_of_answer hreply.symm))⟩

/-- A walk that is answered met what the tree holds below the node. -/
theorem nodes_of_run_visit {p : String} {enter : Node → Bool} {nodes : List Node}
    (hp : Path.isValid p = true) (hhas : s.tree.Has p)
    (h : s.run (Action.call (.visit p enter)).run = (.ok nodes, s')) :
    nodes = s.tree.nodesBelow enter p := by
  obtain ⟨hanswer, -⟩ := answer_of_run_call h
  have hrespond := congrArg Prod.fst (respond_of_answer hanswer)
  rw [Tree.respond_visit hp hhas] at hrespond
  exact (Except.ok.inj hrespond).symm

/-- An action that only reads changes nothing. -/
theorem tree_of_reads {x : Action α} (hx : x.Unconditional Call.IsRead)
    {r : Except RegistryError α} (h : s.run x.run = (r, s')) : s'.tree = s.tree := by
  have hkeeps : (s.run x.run).2.tree = s.tree :=
    Program.Keeps.run_invariant (I := fun s₁ => s₁.tree = s.tree) hx
      (fun _ s₁ hc h => (hc.tree s₁).trans h) rfl
  rwa [h] at hkeeps

/-- The revision of a node that is read is that of its directory. -/
theorem revision?_of_run_node {p : String} {n : Node}
    (h : s.run (Action.node p).run = (.ok n, s')) :
    s'.tree = s.tree ∧ s.tree.revision? p = some n.revision := by
  obtain ⟨htree, c, hc, rfl⟩ := exists_of_run_node_eq_ok h
  refine ⟨htree, ?_⟩
  rw [Tree.revision?, hc]
  rfl

end Service

/-! ## The check of a revision -/

/-- The reply says that the check of a revision failed. -/
def Refused {α : Type} (reply : Except RegistryError α) : Prop :=
  ∃ e, reply = .error e ∧ e.IsRevisionConflict

namespace Service

variable {α β : Type} {s : Service} {p : String}

theorem run_node_of_accept {c : Cell} (haccept : (s.accept .get p).1 = .ok ())
    (hp : Path.isValid p = true) (hc : s.tree.cells.get? p = some c) :
    ∃ s', s.run (Action.node p).run = (.ok (s.tree.nodeOf p c), s') ∧ s'.tree = s.tree := by
  obtain ⟨hreply, htree⟩ := answer_of_accept (c := .get p) haccept
  rw [Tree.respond_get_of_get? hp hc] at hreply htree
  have hattempt : s.run (Action.attempt (.get p)).run =
      (.ok (.ok (s.tree.nodeOf p c)), (s.answer (.get p)).2) := by
    show (Except.ok (s.answer (.get p)).1, (s.answer (.get p)).2) = _
    rw [hreply]
  refine ⟨(s.answer (.get p)).2, ?_, htree⟩
  exact (Action.run_bind_ok hattempt).trans rfl

theorem run_node_of_not_accept (haccept : (s.accept .get p).1 ≠ .ok ()) :
    ∃ e s', s.run (Action.node p).run = (.error e, s') ∧ ¬ e.IsRevisionConflict := by
  obtain ⟨⟨e, he⟩, _⟩ := answer_of_not_accept (c := .get p) haccept
  have hattempt : s.run (Action.attempt (.get p)).run =
      (.ok (.error e), (s.answer (.get p)).2) := by
    show (Except.ok (s.answer (.get p)).1, (s.answer (.get p)).2) = _
    rw [he]
  have hrun : s.run (Action.node p).run = _ := Action.run_bind_ok hattempt
  rw [hrun]
  cases e with
  | notFound path => exact ⟨_, _, rfl, Action.not_isRevisionConflict_notFound p⟩
  | _ => exact ⟨_, _, rfl, Action.not_isRevisionConflict_tree _⟩

theorem not_refused {allowed : Call → Prop} {x : Action α} (hx : x.Unconditional allowed)
    (s : Service) : ¬ Refused (s.run x.run).1 := by
  have hends := Program.Keeps.ends_run hx answer s
  rintro ⟨e, he, hconflict⟩
  rw [show (Program.run answer x.run s).1 = .error e from he] at hends
  exact hends hconflict

/-- Passing a result on does not change whether the check refused. -/
theorem run_map (x : Action α) (f : α → β) (s : Service) :
    (Refused (s.run (x >>= fun a => pure (f a)).run).1 ↔ Refused (s.run x.run).1) ∧
      (s.run (x >>= fun a => pure (f a)).run).2 = (s.run x.run).2 := by
  have hmap : s.run (x >>= fun a => pure (f a)).run =
      ((s.run x.run).1.map f, (s.run x.run).2) := Action.run_map x f s
  rw [hmap]
  refine ⟨?_, rfl⟩
  rcases s.run x.run with ⟨e | a, s'⟩
  · constructor
    · rintro ⟨_, h, hconflict⟩
      cases h
      exact ⟨e, rfl, hconflict⟩
    · rintro ⟨_, h, hconflict⟩
      cases h
      exact ⟨e, rfl, hconflict⟩
  · exact iff_of_false (fun ⟨_, h, _⟩ => nomatch h) fun ⟨_, h, _⟩ => nomatch h

/-- The check refuses exactly if the directory was read and is at another revision, and then
nothing was written. -/
theorem run_checked {allowed : Call → Prop} {r : Nat} (expected : Nat) {rest : Action α}
    (hrest : rest.Unconditional allowed) (hp : Path.isValid p = true)
    (hr : s.tree.revision? p = some r) :
    (Refused (s.run (Action.checked p expected rest).run).1 ↔
        (s.accept .get p).1 = .ok () ∧ r ≠ expected) ∧
      (Refused (s.run (Action.checked p expected rest).run).1 →
        (s.run (Action.checked p expected rest).run).2.tree = s.tree) := by
  obtain ⟨c, hc, rfl⟩ := Option.map_eq_some_iff.1 hr
  by_cases haccept : (s.accept .get p).1 = .ok ()
  · obtain ⟨s', hnode, htree⟩ := run_node_of_accept haccept hp hc
    have hrun : s.run (Action.checked p expected rest).run = _ := Action.run_bind_ok hnode
    rw [hrun, and_iff_right haccept]
    by_cases hrevision : c.childVersion = expected
    · have hcheck := Node.run_checkRevision_of_eq answer (n := s.tree.nodeOf p c) hrevision s'
      rw [Action.run_bind_ok hcheck]
      have hnot := not_refused hrest s'
      exact ⟨iff_of_false hnot fun h => h hrevision, fun h => absurd h hnot⟩
    · have hcheck := Node.run_checkRevision_of_ne answer (n := s.tree.nodeOf p c) hrevision s'
      rw [Action.run_bind_error hcheck]
      exact ⟨iff_of_true ⟨_, rfl, _, _, _, rfl⟩ hrevision, fun _ => htree⟩
  · obtain ⟨e, s', hnode, hconflict⟩ := run_node_of_not_accept haccept
    have hrun : s.run (Action.checked p expected rest).run = _ := Action.run_bind_error hnode
    rw [hrun]
    have hnot : ¬ Refused (α := α) (.error e) := by
      rintro ⟨_, h, hmoved⟩
      cases h
      exact hconflict hmoved
    exact ⟨iff_of_false hnot fun h => haccept h.1, fun h => absurd h hnot⟩

/-- The check of an operation whose result is passed on as a reply. -/
theorem run_checked_map {allowed : Call → Prop} {r expected : Nat} {x rest : Action α}
    (hx : x = Action.checked p expected rest) (f : α → β) (hrest : rest.Unconditional allowed)
    (hp : Path.isValid p = true) (hr : s.tree.revision? p = some r) :
    (Refused (s.run (x >>= fun a => pure (f a)).run).1 ↔
        (s.accept .get p).1 = .ok () ∧ r ≠ expected) ∧
      (Refused (s.run (x >>= fun a => pure (f a)).run).1 →
        (s.run (x >>= fun a => pure (f a)).run).2.tree = s.tree) := by
  subst hx
  have hchecked := run_checked expected hrest hp hr
  obtain ⟨hrefused, hafter⟩ := run_map (Action.checked p expected rest) f s
  rw [← hrefused, ← hafter] at hchecked
  exact hchecked

end Service

end Coordination
