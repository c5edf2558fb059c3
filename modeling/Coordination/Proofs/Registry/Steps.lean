import Coordination.Proofs.Text.Utf8
import Coordination.Proofs.Tree.Running

/-!
# The steps of registry operations

What each step that registry operations are made of answers where nothing is made to fail,
and what it may do in any case: the calls that it can make, and the errors that it can end
in. Only the check of a revision reports that a revision moved.
-/

namespace Coordination

/-- Go on if a directory is at the expected revision. -/
def Action.checked {α : Type} (path : String) (expected : Nat) (rest : Action α) : Action α := do
  let root ← Action.node path
  root.checkRevision expected
  rest

namespace Node

variable {σ : Type} (answer : (c : Call) → σ → Except TreeError c.Reply × σ)
variable {n : Node} {expected : Nat}

theorem run_checkRevision_of_eq (h : n.revision = expected) (s : σ) :
    Program.run answer (n.checkRevision expected).run s = (.ok (), s) := by
  rw [checkRevision, if_pos h]
  rfl

theorem run_checkRevision_of_ne (h : n.revision ≠ expected) (s : σ) :
    Program.run answer (n.checkRevision expected).run s =
      (.error (.conflict n.path (.revision expected n.revision)), s) := by
  rw [checkRevision, if_neg h]
  rfl

end Node

/-! ## Where nothing is made to fail -/

namespace Tree

variable {α β : Type} {t t' : Tree} {p : String}

theorem run_bind_ok {x : Action α} {f : α → Action β} {a : α}
    (h : t.run x.run = (.ok a, t')) : t.run (x >>= f).run = t'.run (f a).run :=
  Action.run_bind_ok h

theorem run_bind_error {x : Action α} {f : α → Action β} {e : RegistryError}
    (h : t.run x.run = (.error e, t')) : t.run (x >>= f).run = (.error e, t') :=
  Action.run_bind_error h

theorem run_map (x : Action α) (f : α → β) :
    t.run (x >>= fun a => pure (f a)).run = ((t.run x.run).1.map f, (t.run x.run).2) :=
  Action.run_map x f t

theorem run_attempt {c : Call} {reply : Except TreeError c.Reply}
    (h : t.respond c = (reply, t')) :
    t.run (Action.attempt c).run = (.ok reply, t') := by
  show (Except.ok (t.respond c).1, (t.respond c).2) = _
  rw [h]

theorem run_call (c : Call) : t.run (Action.call c).run =
    ((t.respond c).1.mapError .tree, (t.respond c).2) := by
  have hattempt : t.run (Action.attempt c).run = (.ok (t.respond c).1, (t.respond c).2) :=
    run_attempt rfl
  rw [Action.call, run_bind_ok hattempt]
  cases (t.respond c).1 <;> rfl

theorem run_node_of_get? {c : Cell} (hp : Path.isValid p = true)
    (hc : t.cells.get? p = some c) : t.run (Action.node p).run = (.ok (t.nodeOf p c), t) := by
  rw [Action.node, run_bind_ok (run_attempt (respond_get_of_get? hp hc))]
  rfl

theorem run_node_of_revision {r : Nat} (hp : Path.isValid p = true)
    (hr : t.revision? p = some r) :
    ∃ n, t.run (Action.node p).run = (.ok n, t) ∧ n.revision = r := by
  obtain ⟨c, hc, rfl⟩ := Option.map_eq_some_iff.1 hr
  exact ⟨_, run_node_of_get? hp hc, rfl⟩

theorem run_node_of_value {v : Bytes} (hp : Path.isValid p = true) (hv : t.value? p = some v) :
    ∃ n, t.run (Action.node p).run = (.ok n, t) ∧ n.value = v := by
  obtain ⟨c, hc, rfl⟩ := Option.map_eq_some_iff.1 hv
  exact ⟨_, run_node_of_get? hp hc, rfl⟩

theorem run_node_of_not_has (hp : Path.isValid p = true) (h : ¬ t.Has p) :
    t.run (Action.node p).run = (.error (.notFound p), t) := by
  rw [Action.node, run_bind_ok (run_attempt (respond_get_of_not_has hp h))]
  rfl

theorem run_present (hp : Path.isValid p = true) :
    t.run (Action.present p).run = (.ok (decide (t.Has p)), t) := by
  by_cases h : t.Has p
  · obtain ⟨c, hc⟩ := has_iff_get?.1 h
    rw [Action.present, run_bind_ok (run_attempt (respond_get_of_get? hp hc)), decide_eq_true h]
    rfl
  · rw [Action.present, run_bind_ok (run_attempt (respond_get_of_not_has hp h)),
      decide_eq_false h]
    rfl

theorem run_createNew_of_not_has (ht : t.locked = none) (hp : Path.isValid p = true)
    (h : ¬ t.Has p) (v : Bytes) :
    ∃ n, t.run (Action.createNew p v).run = (.ok n, t.created p v) := by
  obtain ⟨n, hcreate⟩ := respond_create_of_not_has ht hp h v
  refine ⟨n, ?_⟩
  rw [Action.createNew, run_bind_ok (run_attempt hcreate)]
  rfl

theorem run_createNew_of_has (ht : t.locked = none) (hp : Path.isValid p = true)
    (h : t.Has p) (v : Bytes) :
    t.run (Action.createNew p v).run = (.error (.conflict p .exists), t) := by
  rw [Action.createNew, run_bind_ok (run_attempt (respond_create_of_has ht hp h v))]
  rfl

theorem run_put_of_not_has (ht : t.locked = none) (hp : Path.isValid p = true)
    (h : ¬ t.Has p) (v : Bytes) :
    t.run (Action.put p v).run = (.ok (), t.created p v) := by
  obtain ⟨n, hcreate⟩ := respond_create_of_not_has ht hp h v
  rw [Action.put, run_bind_ok (run_attempt hcreate)]
  rfl

theorem run_put_of_get? {c : Cell} (ht : t.locked = none) (hp : Path.isValid p = true)
    (hc : t.cells.get? p = some c) (v : Bytes) :
    t.run (Action.put p v).run = (.ok (), t.written p c v) := by
  have hcreate := respond_create_of_has ht hp (has_iff_get?.2 ⟨c, hc⟩) v
  obtain ⟨n, hset⟩ := respond_set_of_get? ht hp hc v
  have hcall : t.run (Action.call (.set p v)).run = (.ok n, t.written p c v) := by
    rw [Action.call, run_bind_ok (run_attempt hset)]
    rfl
  rw [Action.put, run_bind_ok (run_attempt hcreate)]
  exact (run_bind_ok (run_node_of_get? hp hc)).trans (run_bind_ok hcall)

theorem run_visit (hp : Path.isValid p = true) (h : t.Has p) (enter : Node → Bool) :
    t.run (Action.call (.visit p enter)).run = (.ok (t.nodesBelow enter p), t) := by
  rw [Action.call, run_bind_ok (run_attempt (respond_visit hp h enter))]
  rfl

theorem run_call_delete {parent : String} (ht : t.locked = none)
    (hp : Path.isValid p = true) (h : t.Has p) (hparent : Path.parent? p = some parent)
    (hleaf : t.childPaths p = []) :
    t.run (Action.call (.delete p)).run = (.ok (), t.removed p parent) := by
  rw [Action.call, run_bind_ok (run_attempt (respond_delete_of_leaf ht hp h hparent hleaf))]
  rfl

theorem run_checked_of_eq {r expected : Nat} {rest : Action α} (hp : Path.isValid p = true)
    (hr : t.revision? p = some r) (h : r = expected) :
    t.run (Action.checked p expected rest).run = t.run rest.run := by
  obtain ⟨c, hc, rfl⟩ := Option.map_eq_some_iff.1 hr
  have hcheck := Node.run_checkRevision_of_eq respond (n := t.nodeOf p c) h t
  rw [Action.checked, run_bind_ok (run_node_of_get? hp hc), run_bind_ok hcheck]

theorem run_checked_of_ne {r expected : Nat} {rest : Action α} (hp : Path.isValid p = true)
    (hr : t.revision? p = some r) (h : r ≠ expected) :
    t.run (Action.checked p expected rest).run =
      (.error (.conflict p (.revision expected r)), t) := by
  obtain ⟨c, hc, rfl⟩ := Option.map_eq_some_iff.1 hr
  have hcheck := Node.run_checkRevision_of_ne respond (n := t.nodeOf p c) h t
  rw [Action.checked, run_bind_ok (run_node_of_get? hp hc), run_bind_error hcheck]
  rfl

theorem run_checked_of_not_has {expected : Nat} {rest : Action α} (hp : Path.isValid p = true)
    (h : ¬ t.Has p) :
    t.run (Action.checked p expected rest).run = (.error (.notFound p), t) := by
  rw [Action.checked, run_bind_error (run_node_of_not_has hp h)]

/-- A node whose value encodes a text is read as the text. -/
theorem run_decode {n : Node} {s : String} (h : n.value = Text.Utf8.encode s) :
    t.run n.decode.run = (.ok s, t) := by
  rw [Node.decode, h, Text.Utf8.decode_encode]
  rfl

end Tree

/-! ## In any case -/

namespace RegistryError

/-- The error says that a revision moved. -/
def IsRevisionConflict (e : RegistryError) : Prop :=
  ∃ path expected actual, e = .conflict path (.revision expected actual)

end RegistryError

namespace Action

variable {α : Type} {allowed : Call → Prop}

/-- The action makes allowed calls only, and no error of it says that a revision moved. -/
def Unconditional (allowed : Call → Prop) (x : Action α) : Prop :=
  x.Keeps allowed (fun _ => True) fun e => ¬ e.IsRevisionConflict

theorem unconditional_pure (a : α) : (pure a : Action α).Unconditional allowed :=
  keeps_pure trivial

theorem unconditional_throw {e : RegistryError} (h : ¬ e.IsRevisionConflict) :
    (throw e : Action α).Unconditional allowed := keeps_throw h

theorem Unconditional.bind {β : Type} {x : Action α} {f : α → Action β}
    (hx : x.Unconditional allowed) (hf : ∀ a, (f a).Unconditional allowed) :
    (x >>= f).Unconditional allowed := Keeps.bind hx fun a _ => hf a

theorem unconditional_attempt {c : Call} (h : allowed c) :
    (attempt c).Unconditional allowed := keeps_attempt h

theorem not_isRevisionConflict_tree (e : TreeError) :
    ¬ (RegistryError.tree e).IsRevisionConflict := by
  rintro ⟨_, _, _, h⟩
  cases h

theorem not_isRevisionConflict_notFound (path : String) :
    ¬ (RegistryError.notFound path).IsRevisionConflict := by
  rintro ⟨_, _, _, h⟩
  cases h

theorem unconditional_call {c : Call} (h : allowed c) : (call c).Unconditional allowed := by
  refine (unconditional_attempt h).bind fun reply => ?_
  cases reply with
  | ok a => exact unconditional_pure a
  | error e => exact unconditional_throw (not_isRevisionConflict_tree e)

theorem unconditional_node {p : String} (h : allowed (.get p)) :
    (node p).Unconditional allowed := by
  refine (unconditional_attempt h).bind fun reply => ?_
  split
  · exact unconditional_pure _
  · exact unconditional_throw (not_isRevisionConflict_notFound p)
  · exact unconditional_throw (not_isRevisionConflict_tree _)

theorem unconditional_present {p : String} (h : allowed (.get p)) :
    (present p).Unconditional allowed := by
  refine (unconditional_attempt h).bind fun reply => ?_
  split
  · exact unconditional_pure _
  · exact unconditional_pure _
  · exact unconditional_throw (not_isRevisionConflict_tree _)

theorem unconditional_createNew {p : String} {v : Bytes} (h : allowed (.create p v)) :
    (createNew p v).Unconditional allowed := by
  refine (unconditional_attempt h).bind fun reply => ?_
  split
  · exact unconditional_pure _
  · refine unconditional_throw ?_
    rintro ⟨_, _, _, heq⟩
    cases heq
  · exact unconditional_throw (not_isRevisionConflict_tree _)

theorem unconditional_put {p : String} {v : Bytes} (hcreate : allowed (.create p v))
    (hget : allowed (.get p)) (hset : allowed (.set p v)) :
    (put p v).Unconditional allowed := by
  refine (unconditional_attempt hcreate).bind fun reply => ?_
  split
  · exact unconditional_pure _
  · refine (unconditional_node hget).bind fun _ => ?_
    exact (unconditional_call hset).bind fun _ => unconditional_pure _
  · exact unconditional_throw (not_isRevisionConflict_tree _)

theorem unconditional_children {p : String} (h : allowed (.visit p fun _ => false)) :
    (children p).Unconditional allowed := unconditional_call h

theorem unconditional_decode (n : Node) : n.decode.Unconditional allowed := by
  rw [Node.decode]
  split
  · exact unconditional_pure _
  · refine unconditional_throw ?_
    rintro ⟨_, _, _, heq⟩
    cases heq

/-- The check of a revision makes no call. -/
theorem keeps_checkRevision (n : Node) (expected : Nat) :
    (n.checkRevision expected).Keeps allowed (fun _ => True) fun _ => True := by
  rw [Node.checkRevision]
  split
  · exact keeps_pure trivial
  · exact keeps_throw trivial

theorem keeps_checked {p : String} (expected : Nat) {rest : Action α} (h : allowed (.get p))
    (hrest : rest.Unconditional allowed) :
    (checked p expected rest).Keeps allowed (fun _ => True) fun _ => True := by
  have hweaken {β : Type} {x : Action β} (hx : x.Unconditional allowed) :
      x.Keeps allowed (fun _ => True) fun _ => True :=
    hx.mono (fun _ hc => hc) (fun _ _ => trivial) fun _ _ => trivial
  refine (hweaken (unconditional_node h)).bind fun root _ => ?_
  exact (keeps_checkRevision root expected).bind fun _ _ => hweaken hrest

end Action

end Coordination
