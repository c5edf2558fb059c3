import Coordination.Proofs.Tree.Calls
import Coordination.Registry.Basic
import Coordination.Tree.Service

/-!
# Running programs

An action is run step by step: a bind goes on with the result of its first part, and an
error ends it. What is known of every answer carries over to whole runs: the calls that a
program can make at all are a property of the program, whatever is answered, and what each
such call preserves, a run preserves. Without faults a service answers as its tree does.
-/

namespace Coordination

/-! ## Actions step by step -/

namespace Action

variable {σ : Type} {answer : (c : Call) → σ → Except TreeError c.Reply × σ}
variable {α β : Type}

theorem run_bind (x : Action α) (f : α → Action β) (s : σ) :
    Program.run answer (x >>= f).run s =
      match Program.run answer x.run s with
      | (.ok a, s') => Program.run answer (f a).run s'
      | (.error e, s') => (.error e, s') := by
  refine (Program.run_bind answer x.run _ s).trans ?_
  rcases Program.run answer x.run s with ⟨_ | a, s'⟩ <;> rfl

theorem run_bind_ok {x : Action α} {f : α → Action β} {s s' : σ} {a : α}
    (h : Program.run answer x.run s = (.ok a, s')) :
    Program.run answer (x >>= f).run s = Program.run answer (f a).run s' := by
  rw [run_bind, h]

theorem run_bind_error {x : Action α} {f : α → Action β} {s s' : σ} {e : RegistryError}
    (h : Program.run answer x.run s = (.error e, s')) :
    Program.run answer (x >>= f).run s = (.error e, s') := by
  rw [run_bind, h]

/-- Passing a result on. -/
theorem run_map (x : Action α) (f : α → β) (s : σ) :
    Program.run answer (x >>= fun a => pure (f a)).run s =
      ((Program.run answer x.run s).1.map f, (Program.run answer x.run s).2) := by
  rw [run_bind]
  rcases Program.run answer x.run s with ⟨_ | a, s'⟩ <;> rfl

theorem exists_of_run_bind_eq_ok {x : Action α} {f : α → Action β} {s s' : σ} {b : β}
    (h : Program.run answer (x >>= f).run s = (.ok b, s')) :
    ∃ a s₁, Program.run answer x.run s = (.ok a, s₁) ∧
      Program.run answer (f a).run s₁ = (.ok b, s') := by
  rw [run_bind] at h
  split at h
  · rename_i a s₁ hx
    exact ⟨a, s₁, hx, h⟩
  · cases h

theorem run_tryCatch (x : Action α) (handle : RegistryError → Action α) (s : σ) :
    Program.run answer (tryCatch x handle).run s =
      match Program.run answer x.run s with
      | (.ok a, s') => (.ok a, s')
      | (.error e, s') => Program.run answer (handle e).run s' := by
  refine (Program.run_bind answer x.run _ s).trans ?_
  rcases Program.run answer x.run s with ⟨_ | a, s'⟩ <;> rfl

end Action

/-! ## What a program can do -/

namespace Program

variable {α β : Type} {allowed : Call → Prop}

/-- Whatever is answered, the program makes allowed calls only and ends as it should. -/
def Keeps (allowed : Call → Prop) (ends : α → Prop) : Program α → Prop
  | .done a => ends a
  | .call c next => allowed c ∧ ∀ reply, (next reply).Keeps allowed ends

theorem Keeps.mono {allowed' : Call → Prop} {ends ends' : α → Prop} {p : Program α}
    (h : p.Keeps allowed ends) (hcalls : ∀ c, allowed c → allowed' c)
    (hends : ∀ a, ends a → ends' a) : p.Keeps allowed' ends' := by
  induction p with
  | done a => exact hends a h
  | call c next ih => exact ⟨hcalls c h.1, fun reply => ih reply (h.2 reply)⟩

theorem Keeps.bind {ends : α → Prop} {ends' : β → Prop} {p : Program α} {f : α → Program β}
    (h : p.Keeps allowed ends) (hf : ∀ a, ends a → (f a).Keeps allowed ends') :
    (p.bind f).Keeps allowed ends' := by
  induction p with
  | done a => exact hf a h
  | call c next ih => exact ⟨h.1, fun reply => ih reply (h.2 reply)⟩

/-- What a program ends in, it ends in for every way of answering. -/
theorem Keeps.ends_run {ends : α → Prop} {p : Program α} (h : p.Keeps allowed ends)
    {σ : Type} (answer : (c : Call) → σ → Except TreeError c.Reply × σ) (s : σ) :
    ends (p.run answer s).1 := by
  induction p generalizing s with
  | done a => exact h
  | call c next ih => exact ih _ (h.2 _) _

/-- What every allowed call preserves, a run preserves. -/
theorem Keeps.run_invariant {ends : α → Prop} {p : Program α} (h : p.Keeps allowed ends)
    {σ : Type} {answer : (c : Call) → σ → Except TreeError c.Reply × σ} {I : σ → Prop}
    (hstep : ∀ c s, allowed c → I s → I (answer c s).2) {s : σ} (hs : I s) :
    I (p.run answer s).2 := by
  induction p generalizing s with
  | done a => exact hs
  | call c next ih => exact ih _ (h.2 _) (hstep c s h.1 hs)

/-- The states that a run goes through, from its first to its last. -/
def states {σ : Type} (answer : (c : Call) → σ → Except TreeError c.Reply × σ) :
    Program α → σ → List σ
  | .done _, s => [s]
  | .call c next, s => s :: (next (answer c s).1).states answer (answer c s).2

/-- What every allowed call preserves holds all through a run. -/
theorem Keeps.forall_states {ends : α → Prop} {p : Program α} (h : p.Keeps allowed ends)
    {σ : Type} {answer : (c : Call) → σ → Except TreeError c.Reply × σ} {I : σ → Prop}
    (hstep : ∀ c s, allowed c → I s → I (answer c s).2) {s : σ} (hs : I s) :
    ∀ s' ∈ p.states answer s, I s' := by
  induction p generalizing s with
  | done a => exact List.forall_mem_singleton.2 hs
  | call c next ih =>
    exact List.forall_mem_cons.2 ⟨hs, ih _ (h.2 _) (hstep c s h.1 hs)⟩

end Program

namespace Action

variable {α β : Type} {allowed : Call → Prop}

/-- A result is good, or an error is. -/
def Ends (good : α → Prop) (bad : RegistryError → Prop) : Except RegistryError α → Prop
  | .ok a => good a
  | .error e => bad e

/-- Whatever is answered, the action makes allowed calls only, and ends in a good result or
in a bad error. -/
def Keeps (allowed : Call → Prop) (good : α → Prop) (bad : RegistryError → Prop)
    (x : Action α) : Prop := Program.Keeps allowed (Ends good bad) x.run

theorem Keeps.mono {allowed' : Call → Prop} {good good' : α → Prop}
    {bad bad' : RegistryError → Prop} {x : Action α} (h : x.Keeps allowed good bad)
    (hcalls : ∀ c, allowed c → allowed' c) (hgood : ∀ a, good a → good' a)
    (hbad : ∀ e, bad e → bad' e) : x.Keeps allowed' good' bad' := by
  refine Program.Keeps.mono h hcalls fun r hr => ?_
  cases r with
  | ok a => exact hgood a hr
  | error e => exact hbad e hr

theorem keeps_pure {good : α → Prop} {bad : RegistryError → Prop} {a : α} (h : good a) :
    (pure a : Action α).Keeps allowed good bad := h

theorem keeps_throw {good : α → Prop} {bad : RegistryError → Prop} {e : RegistryError}
    (h : bad e) : (throw e : Action α).Keeps allowed good bad := h

theorem keeps_attempt {bad : RegistryError → Prop} {c : Call} (h : allowed c) :
    (attempt c).Keeps allowed (fun _ => True) bad := ⟨h, fun _ => trivial⟩

theorem Keeps.bind {good : α → Prop} {good' : β → Prop} {bad : RegistryError → Prop}
    {x : Action α} {f : α → Action β} (hx : x.Keeps allowed good bad)
    (hf : ∀ a, good a → (f a).Keeps allowed good' bad) :
    (x >>= f).Keeps allowed good' bad := by
  refine Program.Keeps.bind hx fun r hr => ?_
  cases r with
  | ok a => exact hf a hr
  | error e => exact hr

theorem Keeps.tryCatch {good : α → Prop} {bad bad' : RegistryError → Prop} {x : Action α}
    {handle : RegistryError → Action α} (hx : x.Keeps allowed good bad)
    (hhandle : ∀ e, bad e → (handle e).Keeps allowed good bad') :
    (tryCatch x handle).Keeps allowed good bad' := by
  refine Program.Keeps.bind hx fun r hr => ?_
  cases r with
  | ok a => exact hr
  | error e => exact hhandle e hr

end Action

/-! ## Fault-free services -/

namespace Tree

/-- Run a program where no call is made to fail. -/
def run {α : Type} (p : Program α) (t : Tree) : α × Tree := p.run respond t

end Tree

namespace Service

/-- No call is made to fail, and no writes are refused. -/
structure FaultFree (s : Service) : Prop where
  faults : s.faults = []
  unlocked : s.tree.locked = none

theorem answer_of_faults_eq_nil {s : Service} (hs : s.faults = []) (c : Call) :
    (s.answer c).1 = (s.tree.respond c).1 ∧ (s.answer c).2.tree = (s.tree.respond c).2 ∧
      (s.answer c).2.faults = [] := by
  have haccept : s.accept c.kind c.path = (.ok (), s) := by
    cases s with
    | mk tree faults events =>
      cases hs
      rfl
  rw [answer, haccept]
  exact ⟨rfl, rfl, hs⟩

/-- A service without faults runs programs as its tree does. -/
theorem run_of_faults_eq_nil {α : Type} (p : Program α) {s : Service} (hs : s.faults = []) :
    (s.run p).1 = (s.tree.run p).1 ∧ (s.run p).2.tree = (s.tree.run p).2 ∧
      (s.run p).2.faults = [] := by
  induction p generalizing s with
  | done a => exact ⟨rfl, rfl, hs⟩
  | call c next ih =>
    obtain ⟨hreply, htree, hfaults⟩ := answer_of_faults_eq_nil hs c
    have hservice : s.run (.call c next) = (s.answer c).2.run (next (s.answer c).1) := rfl
    have hrun : s.tree.run (.call c next) =
      (s.tree.respond c).2.run (next (s.tree.respond c).1) := rfl
    rw [hservice, hrun, ← hreply, ← htree]
    exact ih _ hfaults

theorem tree_accept (s : Service) (kind : CallKind) (path : String) :
    (s.accept kind path).2.tree = s.tree := by
  rw [accept]
  split <;> rfl

/-- A call is accepted exactly if no fault is due for it. -/
theorem accept_eq_ok_iff {s : Service} {kind : CallKind} {path : String} :
    (s.accept kind path).1 = .ok () ↔ (Fault.consume kind path s.faults).1 = none := by
  rw [accept]
  rcases Fault.consume kind path s.faults with ⟨_ | e, rest⟩ <;> simp

/-- A call that is accepted is answered by the tree. -/
theorem answer_of_accept {s : Service} {c : Call} (h : (s.accept c.kind c.path).1 = .ok ()) :
    (s.answer c).1 = (s.tree.respond c).1 ∧ (s.answer c).2.tree = (s.tree.respond c).2 := by
  have htree := s.tree_accept c.kind c.path
  rw [answer]
  rcases haccept : s.accept c.kind c.path with ⟨r, s'⟩
  rw [haccept] at h htree
  cases h
  show (s'.tree.answer c).1 = _ ∧ (s'.tree.answer c).2.1 = _
  rw [htree]
  exact ⟨rfl, rfl⟩

/-- A call that is not accepted fails and leaves the tree as it is. -/
theorem answer_of_not_accept {s : Service} {c : Call}
    (h : (s.accept c.kind c.path).1 ≠ .ok ()) :
    (∃ e, (s.answer c).1 = .error e) ∧ (s.answer c).2.tree = s.tree := by
  have htree := s.tree_accept c.kind c.path
  rw [answer]
  rcases haccept : s.accept c.kind c.path with ⟨_ | u, s'⟩
  · rw [haccept] at htree
    exact ⟨⟨_, rfl⟩, htree⟩
  · rw [haccept] at h
    exact absurd rfl h

/-- A call is made to fail, or answered by the tree. -/
theorem answer_cases (s : Service) (c : Call) :
    ((∃ e, (s.answer c).1 = .error e) ∧ (s.answer c).2.tree = s.tree) ∨
      ((s.answer c).1 = (s.tree.respond c).1 ∧ (s.answer c).2.tree = (s.tree.respond c).2) := by
  cases haccept : (s.accept c.kind c.path).1 with
  | error e =>
    refine Or.inl (answer_of_not_accept ?_)
    rw [haccept]
    exact fun h => nomatch h
  | ok u => exact Or.inr (answer_of_accept haccept)

/-- With and without faults, a call changes the tree in the same ways. -/
theorem change_answer (s : Service) (c : Call) : Tree.Change s.tree c (s.answer c).2.tree := by
  rcases s.answer_cases c with ⟨_, htree⟩ | ⟨_, htree⟩
  · rw [htree]
    exact .none c
  · rw [htree]
    exact Tree.change_respond s.tree c

theorem FaultFree.answer {s : Service} (hs : s.FaultFree) (c : Call) :
    (s.answer c).2.FaultFree :=
  ⟨(answer_of_faults_eq_nil hs.faults c).2.2, (s.change_answer c).locked.trans hs.unlocked⟩

theorem FaultFree.run {α : Type} {s : Service} (hs : s.FaultFree) (p : Program α) :
    (s.run p).2.FaultFree := by
  induction p generalizing s with
  | done a => exact hs
  | call c next ih => exact ih (s.answer c).1 (hs.answer c)

/-- Programs lead from reachable trees to reachable trees. -/
theorem reachable_run {α : Type} (p : Program α) {s : Service} (hs : s.tree.Reachable) :
    (s.run p).2.tree.Reachable := by
  induction p generalizing s with
  | done a => exact hs
  | call c next ih =>
    have hanswer : (s.answer c).2.tree.Reachable := by
      rcases s.answer_cases c with ⟨_, htree⟩ | ⟨_, htree⟩
      · rw [htree]
        exact hs
      · rw [htree]
        exact .call c hs
    exact ih (s.answer c).1 hanswer

end Service

end Coordination
