import Coordination.Tree.Program

/-!
# The coordination service

The tree as programs and clients meet it: calls may be made to fail. A planned fault lets a
number of calls of its kind on its path pass and makes the next one fail, once, before the
tree is even looked at. Of several faults for a call only the first counts. Without faults
the service answers as the tree does.
-/

namespace Coordination

/-- The kinds of calls that can be made to fail; installing a watch is one of them. -/
inductive CallKind where
  | get
  | create
  | set
  | delete
  | visit
  | watch
  deriving DecidableEq, Repr, Inhabited

/-- The kind of a call. -/
def Call.kind : Call → CallKind
  | .get _ => .get
  | .create .. => .create
  | .set .. => .set
  | .delete _ => .delete
  | .visit .. => .visit

/-- A planned failure. -/
structure Fault where
  kind : CallKind
  path : String
  error : TreeError
  /-- How many more calls pass before one fails. -/
  after : Nat
  deriving DecidableEq, Repr, Inhabited

namespace Fault

/-- The error that the first fault for a call brings about, if its time has come, and the
faults that remain. -/
def consume (kind : CallKind) (path : String) : List Fault → Option TreeError × List Fault
  | [] => (none, [])
  | f :: rest =>
    if f.kind = kind ∧ f.path = path then
      match f.after with
      | 0 => (some f.error, rest)
      | n + 1 => (none, { f with after := n } :: rest)
    else
      let (error, rest) := consume kind path rest
      (error, f :: rest)

end Fault

/-- The tree, the planned faults, and the events since they were last taken. -/
structure Service where
  tree : Tree
  faults : List Fault
  events : List Event
  deriving DecidableEq

namespace Service

/-- A new service: the root alone, and no faults. -/
def fresh : Service := ⟨.empty, [], []⟩

instance : Inhabited Service := ⟨fresh⟩

/-- Fail if a fault is due for a call, and count the call. -/
def accept (kind : CallKind) (path : String) (s : Service) : Except TreeError Unit × Service :=
  match Fault.consume kind path s.faults with
  | (some e, rest) => (.error e, { s with faults := rest })
  | (none, rest) => (.ok (), { s with faults := rest })

/-- Answer a call. -/
def answer (c : Call) (s : Service) : Except TreeError c.Reply × Service :=
  match s.accept c.kind c.path with
  | (.error e, s) => (.error e, s)
  | (.ok (), s) =>
    let (reply, tree, events) := s.tree.answer c
    (reply, { s with tree, events := s.events ++ events })

/-- Run a program. -/
def run {α : Type} (p : Program α) (s : Service) : α × Service := p.run answer s

/-- Accept a watch on a path. -/
def acceptWatch (path : String) (s : Service) : Except TreeError Unit × Service :=
  match s.accept .watch path with
  | (.error e, s) => (.error e, s)
  | (.ok (), s) => (Tree.checkPath path, s)

/-- Plan a fault, behind those already planned. -/
def plan (f : Fault) (s : Service) : Service := { s with faults := s.faults ++ [f] }

/-- Tell every watch that the connection was lost. -/
def disconnect (s : Service) : Service := { s with events := s.events ++ [.lost] }

/-- Change which writes are refused. -/
def modifyTree (f : Tree → Tree) (s : Service) : Service := { s with tree := f s.tree }

end Service

end Coordination
