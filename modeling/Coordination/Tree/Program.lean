import Coordination.Tree.Operations

/-!
# Programs over the tree

A multi-step operation on the tree is a program: a sequence of single calls in which every
call may depend on the answers to the earlier ones. Calls are atomic and programs are not,
so a program says where other programs may come in between and where a call may fail. How
calls are answered is left to whoever runs the program.
-/

namespace Coordination

/-- A single call on the tree. -/
inductive Call where
  | get (path : String)
  | create (path : String) (value : Bytes)
  | set (path : String) (value : Bytes)
  | delete (path : String)
  | visit (path : String) (enter : Node → Bool)

namespace Call

/-- What a successful call answers. -/
abbrev Reply : Call → Type
  | get _ => Node
  | create .. => Node
  | set .. => Node
  | delete _ => Unit
  | visit .. => List Node

/-- The path that a call names. -/
def path : Call → String
  | get path => path
  | create path _ => path
  | set path _ => path
  | delete path => path
  | visit path _ => path

end Call

namespace Written

/-- The answer, the new tree and the events of a write that may have failed on `t`. -/
def outcome {α : Type} (t : Tree) :
    Except TreeError (Written α) → Except TreeError α × Tree × List Event
  | .ok w => (.ok w.result, w.tree, w.events)
  | .error e => (.error e, t, [])

end Written

namespace Tree

/-- Answer a call. -/
def answer (t : Tree) : (c : Call) → Except TreeError c.Reply × Tree × List Event
  | .get path => (t.get path, t, [])
  | .create path value => Written.outcome t (t.create path value)
  | .set path value => Written.outcome t (t.set path value)
  | .delete path => Written.outcome t (t.delete path)
  | .visit path enter => (t.visit path enter, t, [])

end Tree

/-- A program over the tree with a result in `α`. -/
inductive Program (α : Type) where
  | done (a : α)
  | call (c : Call) (next : Except TreeError c.Reply → Program α)

namespace Program

variable {α β : Type}

/-- Go on with the result of a program. -/
def bind : Program α → (α → Program β) → Program β
  | .done a, f => f a
  | .call c next, f => .call c fun reply => (next reply).bind f

instance : Monad Program where
  pure := .done
  bind := bind

/-- The program of one call. -/
def perform (c : Call) : Program (Except TreeError c.Reply) := .call c .done

/-- Run a program where calls are answered by `answer`. -/
def run {σ : Type} (answer : (c : Call) → σ → Except TreeError c.Reply × σ) :
    Program α → σ → α × σ
  | .done a, s => (a, s)
  | .call c next, s =>
    let (reply, s) := answer c s
    (next reply).run answer s

@[simp] theorem run_done {σ : Type} (answer : (c : Call) → σ → Except TreeError c.Reply × σ)
    (a : α) (s : σ) : (Program.done a).run answer s = (a, s) := rfl

@[simp] theorem run_call {σ : Type} (answer : (c : Call) → σ → Except TreeError c.Reply × σ)
    (c : Call) (next : Except TreeError c.Reply → Program α) (s : σ) :
    (Program.call c next).run answer s =
      (next (answer c s).1).run answer (answer c s).2 := rfl

/-- Running one program after another. -/
theorem run_bind {σ : Type} (answer : (c : Call) → σ → Except TreeError c.Reply × σ)
    (p : Program α) (f : α → Program β) (s : σ) :
    (p.bind f).run answer s = (f (p.run answer s).1).run answer (p.run answer s).2 := by
  induction p generalizing s with
  | done a => rfl
  | call c next ih => exact ih _ _

end Program

end Coordination
