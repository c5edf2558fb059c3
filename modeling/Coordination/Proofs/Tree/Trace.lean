import Coordination.Proofs.Tree.Running

/-!
# What a run tries

The trace of a run lists the calls that it makes, in order, each with the error that it fails
with, if it fails. What took effect of a run are the writes of its trace that did not fail.
Planned faults let any calls fail with any errors: whatever is chosen to fail in a run, there
are faults that make just that happen.
-/

namespace Coordination

namespace Call

/-- The error that a call fails with, if it fails. -/
def failure? {α : Type} : Except TreeError α → Option TreeError
  | .ok _ => none
  | .error e => some e

/-- Whether the call is made to change the tree. -/
def isWrite : Call → Bool
  | .create .. | .set .. | .delete _ => true
  | .get _ | .visit .. => false

/-- The writes that did not fail among calls that were made. -/
def effective (tried : List (Call × Option TreeError)) : List Call :=
  (tried.filter fun e => e.2.isNone && e.1.isWrite).map Prod.fst

theorem effective_append (tried tried' : List (Call × Option TreeError)) :
    effective (tried ++ tried') = effective tried ++ effective tried' := by
  rw [effective, List.filter_append, List.map_append]
  rfl

/-- Of writes that all succeed, all are effective. -/
theorem effective_map {calls : List Call} (h : ∀ c ∈ calls, c.isWrite = true) :
    effective (calls.map (·, none)) = calls := by
  induction calls with
  | nil => rfl
  | cons c rest ih =>
    obtain ⟨hc, hrest⟩ := List.forall_mem_cons.1 h
    have hsplit : effective ((c :: rest).map (·, none)) =
        effective [(c, none)] ++ effective (rest.map (·, none)) :=
      effective_append [(c, none)] _
    have hhead : effective [(c, none)] = [c] := by simp [effective, hc]
    rw [hsplit, hhead, ih hrest]
    rfl

theorem effective_failed (c : Call) (e : TreeError) : effective [(c, some e)] = [] := rfl

end Call

namespace Program

variable {α β σ : Type} (answer : (c : Call) → σ → Except TreeError c.Reply × σ)

theorem bind_assoc' {γ : Type} (p : Program α) (f : α → Program β) (g : β → Program γ) :
    (p.bind f).bind g = p.bind fun a => (f a).bind g := by
  induction p with
  | done a => rfl
  | call c next ih => exact congrArg (Program.call c) (funext ih)

theorem bind_done (p : Program α) : p.bind .done = p := by
  induction p with
  | done a => rfl
  | call c next ih => exact congrArg (Program.call c) (funext ih)

instance : LawfulMonad Program :=
  LawfulMonad.mk' Program bind_done (fun _ _ => rfl) bind_assoc'

/-- The calls that a run makes, each with the error that it fails with, if it fails. -/
def trace : Program α → σ → List (Call × Option TreeError)
  | .done _, _ => []
  | .call c next, s =>
    (c, Call.failure? (answer c s).1) :: (next (answer c s).1).trace (answer c s).2

theorem trace_bind (p : Program α) (f : α → Program β) (s : σ) :
    (p.bind f).trace answer s =
      p.trace answer s ++ (f (p.run answer s).1).trace answer (p.run answer s).2 := by
  induction p generalizing s with
  | done a => rfl
  | call c next ih => exact congrArg (List.cons _) (ih _ _)

end Program

namespace Action

variable {α β σ : Type} {answer : (c : Call) → σ → Except TreeError c.Reply × σ}

theorem trace_bind_ok {x : Action α} {f : α → Action β} {s s' : σ} {a : α}
    (h : Program.run answer x.run s = (.ok a, s')) :
    Program.trace answer (x >>= f).run s =
      Program.trace answer x.run s ++ Program.trace answer (f a).run s' := by
  refine (Program.trace_bind answer x.run _ s).trans ?_
  rw [h]
  rfl

theorem trace_bind_error {x : Action α} {f : α → Action β} {s s' : σ} {e : RegistryError}
    (h : Program.run answer x.run s = (.error e, s')) :
    Program.trace answer (x >>= f).run s = Program.trace answer x.run s := by
  refine (Program.trace_bind answer x.run _ s).trans ?_
  rw [h]
  exact List.append_nil _

end Action

namespace Service

variable {α : Type}

/-- What a service is asked while it runs a program, and what fails. -/
def trace (p : Program α) (s : Service) : List (Call × Option TreeError) := p.trace answer s

/-- The writes that take effect while a service runs a program. -/
def effects (p : Program α) (s : Service) : List Call := Call.effective (s.trace p)

theorem effects_call {c : Call} {next : Except TreeError c.Reply → Program α} {s : Service} :
    s.effects (.call c next) = Call.effective [(c, Call.failure? (s.answer c).1)] ++
      (s.answer c).2.effects (next (s.answer c).1) :=
  Call.effective_append [(c, Call.failure? (s.answer c).1)] _

/-- The first call of a program takes effect if it is a write and succeeds. -/
theorem mem_effects_call {c c' : Call} {next : Except TreeError c'.Reply → Program α}
    {s : Service} (h : c ∈ s.effects (.call c' next)) :
    (c = c' ∧ c'.isWrite = true ∧ ∃ reply, (s.answer c').1 = .ok reply) ∨
      c ∈ (s.answer c').2.effects (next (s.answer c').1) := by
  rw [effects_call, List.mem_append] at h
  refine h.imp_left fun hhead => ?_
  obtain ⟨e, he, rfl⟩ := List.mem_map.1 hhead
  obtain ⟨hmem, heffective⟩ := List.mem_filter.1 he
  obtain rfl := List.mem_singleton.1 hmem
  obtain ⟨hsucceeds, hwrite⟩ := Bool.and_eq_true_iff.1 heffective
  refine ⟨rfl, hwrite, ?_⟩
  cases hanswer : (s.answer c').1 with
  | ok reply => exact ⟨reply, rfl⟩
  | error e =>
    rw [hanswer] at hsucceeds
    cases hsucceeds

/-- What takes effect is among the calls that the program can make, and a write. -/
theorem allowed_of_mem_effects {allowed : Call → Prop} {ends : α → Prop} {p : Program α}
    (hp : p.Keeps allowed ends) {s : Service} {c : Call} (hc : c ∈ s.effects p) :
    allowed c ∧ c.isWrite = true := by
  induction p generalizing s with
  | done a => cases hc
  | call c' next ih =>
    rcases mem_effects_call hc with ⟨rfl, hwrite, _⟩ | hrest
    · exact ⟨hp.1, hwrite⟩
    · exact ih _ (hp.2 _) hrest

variable {β : Type} {x : Action α} {f : α → Action β} {s s' : Service}

theorem run_bind_ok {a : α} (h : s.run x.run = (.ok a, s')) :
    s.run (x >>= f).run = s'.run (f a).run := Action.run_bind_ok h

theorem run_bind_error {e : RegistryError} (h : s.run x.run = (.error e, s')) :
    s.run (x >>= f).run = (.error e, s') := Action.run_bind_error h

theorem trace_bind_ok {a : α} (h : s.run x.run = (.ok a, s')) :
    s.trace (x >>= f).run = s.trace x.run ++ s'.trace (f a).run := Action.trace_bind_ok h

theorem trace_bind_error {e : RegistryError} (h : s.run x.run = (.error e, s')) :
    s.trace (x >>= f).run = s.trace x.run := Action.trace_bind_error h

end Service

/-! ## Any calls can be made to fail -/

namespace Fault

/-- Let one more call pass before the first fault for it. -/
def defer (kind : CallKind) (path : String) : List Fault → List Fault
  | [] => []
  | f :: rest =>
    if f.kind = kind ∧ f.path = path then { f with after := f.after + 1 } :: rest
    else f :: defer kind path rest

theorem consume_defer (kind : CallKind) (path : String) (faults : List Fault) :
    consume kind path (defer kind path faults) = (none, faults) := by
  induction faults with
  | nil => rfl
  | cons f rest ih =>
    by_cases h : f.kind = kind ∧ f.path = path
    · rw [defer, if_pos h, consume, if_pos h]
    · rw [defer, if_neg h, consume, if_neg h, ih]

theorem consume_cons (kind : CallKind) (path : String) (e : TreeError) (faults : List Fault) :
    consume kind path (⟨kind, path, e, 0⟩ :: faults) = (some e, faults) :=
  if_pos ⟨rfl, rfl⟩

end Fault

/-- Answer a call, unless the next of the given errors says that it fails. -/
def Tree.respondUnless (c : Call) :
    Tree × List (Option TreeError) → Except TreeError c.Reply × Tree × List (Option TreeError)
  | (t, []) => ((t.respond c).1, (t.respond c).2, [])
  | (t, none :: rest) => ((t.respond c).1, (t.respond c).2, rest)
  | (t, some e :: rest) => (.error e, t, rest)

namespace Service

theorem answer_of_consume_none {s : Service} {c : Call} {rest : List Fault}
    (h : Fault.consume c.kind c.path s.faults = (none, rest)) :
    ∃ events, s.answer c = ((s.tree.respond c).1, ⟨(s.tree.respond c).2, rest, events⟩) := by
  have haccept : s.accept c.kind c.path = (.ok (), { s with faults := rest }) := by
    rw [accept, h]
  rw [answer, haccept]
  exact ⟨_, rfl⟩

theorem answer_of_consume_some {s : Service} {c : Call} {e : TreeError} {rest : List Fault}
    (h : Fault.consume c.kind c.path s.faults = (some e, rest)) :
    s.answer c = (.error e, { s with faults := rest }) := by
  have haccept : s.accept c.kind c.path = (.error e, { s with faults := rest }) := by
    rw [accept, h]
  rw [answer, haccept]

/-- A service runs a program just as its tree does where the given calls fail. -/
structure Follows {α : Type} (p : Program α) (s : Service)
    (chosen : List (Option TreeError)) : Prop where
  reply : (s.run p).1 = (p.run Tree.respondUnless (s.tree, chosen)).1
  tree : (s.run p).2.tree = (p.run Tree.respondUnless (s.tree, chosen)).2.1
  trace : s.trace p = p.trace Tree.respondUnless (s.tree, chosen)

/-- To follow a program is to answer its first call alike and to follow the rest. -/
theorem Follows.call {α : Type} {c : Call} {next : Except TreeError c.Reply → Program α}
    {s : Service} {chosen : List (Option TreeError)} (rest : List (Option TreeError))
    (hreply : Tree.respondUnless c (s.tree, chosen) = ((s.answer c).1, (s.answer c).2.tree, rest))
    (h : Follows (next (s.answer c).1) (s.answer c).2 rest) :
    Follows (.call c next) s chosen := by
  have hrun : (Program.call c next).run Tree.respondUnless (s.tree, chosen) =
      (next (s.answer c).1).run Tree.respondUnless ((s.answer c).2.tree, rest) := by
    rw [Program.run_call, hreply]
  have htrace : (Program.call c next).trace Tree.respondUnless (s.tree, chosen) =
      (c, Call.failure? (s.answer c).1) ::
        (next (s.answer c).1).trace Tree.respondUnless ((s.answer c).2.tree, rest) := by
    rw [Program.trace, hreply]
  constructor
  · rw [hrun]
    exact h.reply
  · rw [hrun]
    exact h.tree
  · rw [htrace, ← h.trace]
    rfl

/-- Whichever calls of a run are chosen to fail, and with which errors, there are faults that
make these calls fail so and no others. -/
theorem exists_faults {α : Type} (p : Program α) (t : Tree) (chosen : List (Option TreeError)) :
    ∃ faults, ∀ events, Follows p ⟨t, faults, events⟩ chosen := by
  induction p generalizing t chosen with
  | done a => exact ⟨[], fun events => ⟨rfl, rfl, rfl⟩⟩
  | call c next ih =>
    have hpass (rest : List (Option TreeError)) (hchosen : Tree.respondUnless c (t, chosen) =
        ((t.respond c).1, (t.respond c).2, rest)) :
        ∃ faults, ∀ events, Follows (.call c next) ⟨t, faults, events⟩ chosen := by
      obtain ⟨faults, hfaults⟩ := ih (t.respond c).1 (t.respond c).2 rest
      refine ⟨Fault.defer c.kind c.path faults, fun events => ?_⟩
      obtain ⟨events', hanswer⟩ := answer_of_consume_none
        (s := ⟨t, Fault.defer c.kind c.path faults, events⟩)
        (Fault.consume_defer c.kind c.path faults)
      refine .call rest ?_ ?_
      · rw [hanswer]
        exact hchosen
      · rw [hanswer]
        exact hfaults events'
    rcases chosen with _ | ⟨_ | e, rest⟩
    · exact hpass [] rfl
    · exact hpass rest rfl
    · obtain ⟨faults, hfaults⟩ := ih (.error e) t rest
      refine ⟨⟨c.kind, c.path, e, 0⟩ :: faults, fun events => ?_⟩
      have hanswer := answer_of_consume_some
        (s := ⟨t, ⟨c.kind, c.path, e, 0⟩ :: faults, events⟩)
        (Fault.consume_cons c.kind c.path e faults)
      refine .call rest ?_ ?_
      · rw [hanswer]
        rfl
      · rw [hanswer]
        exact hfaults events

end Service

end Coordination
