import Coordination.Proofs.Registry.Errors

/-!
# Nodes that are not written

A program that never writes a node leaves its value alone. It may only make the node appear:
creating a node adds those that are missing above it, with empty values. A node that is put has
the value then, whether it was there or not.
-/

namespace Coordination

/-- The call does not write the node at the path. -/
def Call.Avoids (p : String) (c : Call) : Prop := c.isWrite = true → c.path ≠ p

/-- Whether the call creates a node below the path, and so the one at the path if it is
missing. -/
def Call.createsBelow (p : String) : Call → Bool
  | .create q _ => decide (Path.Below p q)
  | _ => false

theorem Call.IsRead.avoids {c : Call} (h : c.IsRead) (p : String) : c.Avoids p := by
  intro hwrite
  rw [h.not_isWrite] at hwrite
  cases hwrite

/-- A call of a node's own path creates nothing below it. -/
theorem Call.createsBelow_of_path {c : Call} {p : String} (h : c.path = p) :
    c.createsBelow p = false := by
  subst h
  cases c with
  | create q v => exact decide_eq_false (Path.not_below_self q)
  | _ => rfl

/-- The value of a node that was only created on the way to others, if it was. -/
def Tree.implicit (created : Bool) : Option Bytes := if created then some [] else none

theorem Tree.implicit_or (b b' : Bool) :
    (implicit b).or (implicit b') = implicit (b || b') := by
  cases b <;> rfl

namespace Service

variable {s : Service} {p : String}

/-- A call that does not write a node keeps its value, or makes it appear without one. -/
theorem value?_answer (hs : s.tree.Sound) (hp : Path.isValid p = true) {c : Call}
    (hc : c.Avoids p) :
    (s.answer c).2.tree.value? p = (s.tree.value? p).or (Tree.implicit
      ((Call.effective [(c, Call.failure? (s.answer c).1)]).any (Call.createsBelow p))) := by
  cases hreply : (s.answer c).1 with
  | error e =>
    rw [tree_of_answer_error hreply]
    exact (Option.or_none).symm
  | ok reply =>
    have hrespond := respond_of_answer hreply
    cases c with
    | get q =>
      rw [Call.IsRead.tree (c := .get q) trivial s]
      exact (Option.or_none).symm
    | visit q enter =>
      rw [Call.IsRead.tree (c := .visit q enter) trivial s]
      exact (Option.or_none).symm
    | create q v =>
      obtain ⟨hq, hmissing, htree⟩ := Tree.created_of_respond hrespond
      have hne : p ≠ q := fun heq => hc rfl heq.symm
      have hany : (Call.effective [(Call.create q v, Call.failure? (Except.ok reply))]).any
          (Call.createsBelow p) = decide (Path.Below p q) := Bool.or_false _
      rw [htree, Tree.value?_created hs hq, if_neg hne, hany]
      cases hvalue : s.tree.value? p with
      | none =>
        have hlacks := Tree.value?_eq_none_iff.1 hvalue
        by_cases hbelow : Path.Below p q <;> simp [hp, hbelow, hlacks, Tree.implicit]
      | some w =>
        have hhas := Tree.has_iff_value?.2 ⟨w, hvalue⟩
        simp [hhas]
    | set q v =>
      obtain ⟨cell, _, htree⟩ := Tree.written_of_respond hrespond
      rw [htree, Tree.value?_written, if_neg fun heq => hc rfl heq.symm]
      exact (Option.or_none).symm
    | delete q =>
      obtain ⟨parent, _, _, _, htree⟩ := Tree.removed_of_respond hrespond
      rw [htree, Tree.value?_removed, if_neg fun heq => hc rfl heq.symm]
      exact (Option.or_none).symm

/-- So it is for a whole program that never writes the node. -/
theorem value?_run {α : Type} {ends : α → Prop} {q : Program α}
    (hq : q.Keeps (Call.Avoids p) ends) (hs : s.tree.Sound) (hp : Path.isValid p = true) :
    (s.run q).2.tree.value? p =
      (s.tree.value? p).or (Tree.implicit ((s.effects q).any (Call.createsBelow p))) := by
  induction q generalizing s with
  | done a => exact (Option.or_none).symm
  | call c next ih =>
    have hrest := ih (s.answer c).1 (hq.2 _) ((s.change_answer c).sound hs)
    rw [effects_call, List.any_append, ← Tree.implicit_or, ← Option.or_assoc,
      ← value?_answer hs hp hq.1]
    exact hrest

/-- A value that was put is there. -/
theorem value?_of_run_put {v : Bytes} {s' : Service} (hs : s.tree.Sound)
    (h : s.run (Action.put p v).run = (.ok (), s')) : s'.tree.value? p = some v := by
  obtain ⟨reply, s₁, hattempt, h⟩ := exists_of_run_bind_eq_ok h
  obtain ⟨hreply, rfl⟩ := eq_of_run_attempt hattempt
  cases reply with
  | ok n =>
    cases h
    obtain ⟨hp, _, htree⟩ := Tree.created_of_respond (respond_of_answer hreply.symm)
    rw [htree, Tree.value?_created hs hp, if_pos rfl]
  | error e =>
    cases e with
    | alreadyExists path =>
      obtain ⟨n, s₂, _, h⟩ := exists_of_run_bind_eq_ok h
      obtain ⟨n', s₃, hset, hdone⟩ := exists_of_run_bind_eq_ok h
      obtain ⟨hanswer, rfl⟩ := answer_of_run_call hset
      cases hdone
      obtain ⟨cell, _, htree⟩ := Tree.written_of_respond (respond_of_answer hanswer)
      rw [htree, Tree.value?_written, if_pos rfl]
    | _ => cases h

end Service

end Coordination
