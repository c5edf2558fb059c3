import Coordination.Proofs.Registry.LivePointer
import Coordination.Proofs.Tree.Exclusive

/-!
# A store in progress

Storing a value takes up to three calls: the node is created, or, if it is there already, read
and then set. Whatever others do between these calls, as long as nobody deletes the node, each
call either finds the node there and brings the store closer to its end without a trace, or
writes the value and tells so.
-/

namespace Coordination

namespace Turn

/-- The events of the turn. -/
def events (x : Turn) : List Event := x.after.events.drop x.before.events.length

/-- Whether watches of the path hear in this turn that its node was created or changed. -/
def announces (x : Turn) (p : String) : Bool :=
  x.events.any fun e => e.path = p && (e.kind = .created || e.kind = .changed)

/-- The turn wrote the value at the path: it created the node with it, or set it. -/
def Stores (x : Turn) (p : String) (v : Bytes) : Prop :=
  x.failure = none ∧ (x.call = .create p v ∨ x.call = .set p v)

/-- The turn created, set or deleted the node at the path. -/
def Writes (x : Turn) (p : String) : Prop :=
  x.failure = none ∧ x.call.isWrite = true ∧ x.call.path = p

end Turn

/-- A call keeps the value of a node that it does not write. -/
theorem Tree.Change.value_of_has {t t' : Tree} {c : Call} {q : String} (h : Change t c t')
    (ht : t.Sound) (hq : t.Has q) (hc : c.isWrite = true → c.path ≠ q) :
    t'.value? q = t.value? q := by
  cases h with
  | none c => rfl
  | create v hp hmissing => exact value?_created_of_has ht hp hmissing v hq
  | set v hcell => rw [value?_written, if_neg fun heq => hc rfl heq.symm]
  | delete _ _ _ => rw [value?_removed, if_neg fun heq => hc rfl heq.symm]

/-- The program is about to store the value at the path and to go on as `k`. It has found the
node there if `found`. -/
inductive Program.Storing {α : Type} (p : String) (v : Bytes) (k : Program α) :
    Bool → Program α → Prop where
  | create {next : Except TreeError Node → Program α} (done : ∀ n, next (.ok n) = k)
    (there : ∀ path, Storing p v k true (next (.error (.alreadyExists path)))) :
    Storing p v k false (.call (.create p v) next)
  | read {next : Except TreeError Node → Program α}
    (there : ∀ n, Storing p v k true (next (.ok n))) : Storing p v k true (.call (.get p) next)
  | write {next : Except TreeError Node → Program α} (done : ∀ n, next (.ok n) = k) :
    Storing p v k true (.call (.set p v) next)

/-- The program has to store the value at the path before it goes on as `k`: either it starts
with that, or it has found the node, which is still there. -/
def Program.ToStore {α : Type} (p : String) (v : Bytes) (k : Program α) (t : Tree)
    (q : Program α) : Prop :=
  ∃ found, Storing p v k found q ∧ (found = true → t.Has p)

namespace Program.Storing

variable {α : Type} {p : String} {v : Bytes} {k q : Program α} {found : Bool} {s : Service}

theorem exists_call (h : Storing p v k found q) : ∃ c next, q = .call c next := by
  cases h with
  | create done there => exact ⟨_, _, rfl⟩
  | read there => exact ⟨_, _, rfl⟩
  | write done => exact ⟨_, _, rfl⟩

/-- A store names no other path, and deletes nothing. -/
theorem call_eq {c : Call} {next : Except TreeError c.Reply → Program α}
    (h : Storing p v k found (.call c next)) : c.path = p ∧ ∀ q, c ≠ .delete q := by
  cases h with
  | create done there => exact ⟨rfl, fun q heq => nomatch heq⟩
  | read there => exact ⟨rfl, fun q heq => nomatch heq⟩
  | write done => exact ⟨rfl, fun q heq => nomatch heq⟩

/-- What a store that has written its value leaves: the value, and an event that tells. -/
structure Stored (p : String) (v : Bytes) (c : Call) (s : Service) : Prop where
  call : c = .create p v ∨ c = .set p v
  succeeds : Call.failure? (s.answer c).1 = none
  value : (s.answer c).2.tree.value? p = some v
  event : ∀ i, Turn.announces ⟨i, c, none, s, (s.answer c).2⟩ p = true

theorem announces_of_puts {c : Call} {earlier : List Event} {last : Event}
    (h : Service.Puts p s (s.answer c).2 earlier last) (i : Nat) :
    Turn.announces ⟨i, c, none, s, (s.answer c).2⟩ p = true := by
  have hevents : Turn.events ⟨i, c, none, s, (s.answer c).2⟩ = earlier ++ [last] := by
    rw [Turn.events, h.events, List.drop_left]
  rw [Turn.announces, hevents, List.any_eq_true]
  refine ⟨last, by simp, ?_⟩
  rcases h.announces.kind with ⟨hkind, _⟩ | ⟨hkind, _⟩ <;> simp [h.announces.path, hkind]

theorem stored_create (hs : s.FaultFree) (hsound : s.tree.Sound) (hp : Path.isValid p = true)
    (hmissing : ¬ s.tree.Has p) :
    (∃ n, (s.answer (.create p v)).1 = .ok n) ∧ Stored p v (.create p v) s := by
  obtain ⟨n, hcreate⟩ := Tree.respond_create_of_not_has hs.unlocked hp hmissing v
  obtain ⟨hreply, htree, _⟩ := Service.answer_of_faults_eq_nil hs.faults (.create p v)
  rw [hcreate] at hreply htree
  obtain ⟨earlier, last, hputs⟩ := Service.puts_create hs.faults hsound hreply
  refine ⟨⟨n, hreply⟩, Or.inl rfl, ?_, ?_, announces_of_puts hputs⟩
  · rw [hreply]
    rfl
  · rw [htree, Tree.value?_created hsound hp, if_pos rfl]

theorem stored_set (hs : s.FaultFree) (hsound : s.tree.Sound) (hp : Path.isValid p = true)
    (hhas : s.tree.Has p) :
    (∃ n, (s.answer (.set p v)).1 = .ok n) ∧ Stored p v (.set p v) s := by
  obtain ⟨c, hc⟩ := Tree.has_iff_get?.1 hhas
  obtain ⟨n, hset⟩ := Tree.respond_set_of_get? hs.unlocked hp hc v
  obtain ⟨hreply, htree, _⟩ := Service.answer_of_faults_eq_nil hs.faults (.set p v)
  rw [hset] at hreply htree
  obtain ⟨earlier, last, hputs⟩ := Service.puts_set hs.faults hsound hreply
  refine ⟨⟨n, hreply⟩, Or.inr rfl, ?_, ?_, announces_of_puts hputs⟩
  · rw [hreply]
    rfl
  · rw [htree, Tree.value?_written, if_pos rfl]

/-- A call of a store leaves no trace and finds the node there, or it writes the value. -/
theorem step {c : Call} {next : Except TreeError c.Reply → Program α}
    (h : Storing p v k found (.call c next)) (hs : s.FaultFree) (hsound : s.tree.Sound)
    (hp : Path.isValid p = true) (hfound : found = true → s.tree.Has p) :
    ((s.answer c).2 = s ∧ s.tree.Has p ∧ Storing p v k true (next (s.answer c).1) ∧
      (c.isWrite = true → Call.failure? (s.answer c).1 ≠ none)) ∨
      next (s.answer c).1 = k ∧ Stored p v c s := by
  cases h with
  | create done there =>
    by_cases hhas : s.tree.Has p
    · left
      rw [hs.answer_create_of_has hp hhas v]
      exact ⟨rfl, hhas, there p, fun _ h => by cases h⟩
    · right
      obtain ⟨⟨n, hreply⟩, hstored⟩ := stored_create (v := v) hs hsound hp hhas
      refine ⟨?_, hstored⟩
      rw [hreply]
      exact done n
  | read there =>
    left
    obtain ⟨c, hc⟩ := Tree.has_iff_get?.1 (hfound rfl)
    obtain ⟨hreply, _⟩ := Service.answer_of_faults_eq_nil hs.faults (.get p)
    rw [Tree.respond_get_of_get? hp hc] at hreply
    refine ⟨?_, hfound rfl, ?_, fun h => by cases h⟩
    · rw [Service.answer_eq_of_faults_eq_nil hs.faults]
      show (⟨s.tree, s.faults, s.events ++ []⟩ : Service) = s
      rw [List.append_nil]
    · rw [hreply]
      exact there _
  | write done =>
    right
    obtain ⟨⟨n, hreply⟩, hstored⟩ := stored_set (v := v) hs hsound hp (hfound rfl)
    refine ⟨?_, hstored⟩
    rw [hreply]
    exact done n

end Program.Storing

namespace Program.ToStore

variable {α : Type} {p : String} {v : Bytes} {k q : Program α} {t t' : Tree} {s : Service}

/-- Storing a value starts with the creation of its node. -/
theorem put : ToStore p v (.done (.ok ())) t (Action.put p v).run :=
  ⟨false, .create (fun _ => rfl) fun _ => .read fun _ => .write fun _ => rfl,
    fun hfound => absurd hfound Bool.false_ne_true⟩

/-- So it does where more is to be done afterwards. -/
theorem put_bind {x : Action α} :
    ToStore p v x.run t (Action.put p v >>= fun _ => x).run :=
  ⟨false, .create (fun _ => rfl) fun _ => .read fun _ => .write fun _ => rfl,
    fun hfound => absurd hfound Bool.false_ne_true⟩

theorem mono (h : ToStore p v k t q) (hhas : t.Has p → t'.Has p) : ToStore p v k t' q := by
  obtain ⟨found, hstoring, hfound⟩ := h
  exact ⟨found, hstoring, fun heq => hhas (hfound heq)⟩

theorem not_ended (h : ToStore p v k t q) {a : α} : q ≠ .done a := by
  obtain ⟨_, hstoring, _⟩ := h
  obtain ⟨c, next, rfl⟩ := hstoring.exists_call
  exact fun heq => nomatch heq

section

variable {c : Call} {next : Except TreeError c.Reply → Program α}

theorem call_eq (h : ToStore p v k t (.call c next)) : c.path = p ∧ ∀ q, c ≠ .delete q := by
  obtain ⟨_, hstoring, _⟩ := h
  exact hstoring.call_eq

/-- A call either leaves no trace and brings the store closer to its end, or it writes the
value. -/
theorem step (h : ToStore p v k s.tree (.call c next)) (hs : s.FaultFree) (hsound : s.tree.Sound)
    (hp : Path.isValid p = true) :
    ((s.answer c).2 = s ∧ ToStore p v k s.tree (next (s.answer c).1) ∧
      (c.isWrite = true → Call.failure? (s.answer c).1 ≠ none)) ∨
      next (s.answer c).1 = k ∧ Storing.Stored p v c s := by
  obtain ⟨found, hstoring, hfound⟩ := h
  rcases hstoring.step hs hsound hp hfound with ⟨hsame, hhas, hnext, hfails⟩ | hstored
  · exact Or.inl ⟨hsame, ⟨true, hnext, fun _ => hhas⟩, hfails⟩
  · exact Or.inr hstored

end

end Program.ToStore

end Coordination
