import Coordination.OrderedMap
import Coordination.Text.Utf8
import Coordination.Tree.Path

/-!
# The coordination tree

A tree of nodes by path. A node has a value, a count of the writes to its value and a count
of the changes of its set of children. A write either fails and changes nothing, or gives
the new tree together with the events that it causes; the events of a call are listed in
the order in which watches hear of them. The children of a node are found by scanning the
paths from the first possible child on.
-/

namespace Coordination

/-- Why a call on the tree fails. -/
inductive TreeError where
  | notFound (path : String)
  | alreadyExists (path : String)
  | notEmpty (path : String)
  | invalidPath (path : String)
  | disconnected
  | backend (detail : String)
  deriving DecidableEq, Repr, Inhabited

namespace TreeError

/-- The wording of the error. -/
def message : TreeError → String
  | .notFound path => "node not found: " ++ path
  | .alreadyExists path => "node already exists: " ++ path
  | .notEmpty path => "node has children: " ++ path
  | .invalidPath path => "invalid path: " ++ path
  | .disconnected => "disconnected from coordination service"
  | .backend detail => "backend error: " ++ detail

end TreeError

/-- What is stored at a path. -/
structure Cell where
  value : Bytes
  /-- The number of times the value was set. -/
  version : Nat
  /-- The number of times a direct child was created or deleted. -/
  childVersion : Nat
  deriving DecidableEq, Repr, Inhabited

/-- A node as it is read. -/
structure Node where
  path : String
  value : Bytes
  version : Nat
  childVersion : Nat
  numChildren : Nat
  deriving DecidableEq, Repr, Inhabited

namespace Node

/-- The last name of the node's path. -/
def name (n : Node) : String := Path.name n.path

/-- Whether the node has no children. -/
def isLeaf (n : Node) : Bool := n.numChildren = 0

/-- The part of the node's path below `ancestor`, if it is below it. -/
def relativeTo? (n : Node) (ancestor : String) : Option String :=
  Path.relativeTo? ancestor n.path

end Node

/-- What happened to a path. -/
inductive EventKind where
  | created
  | changed
  | deleted
  | childrenChanged
  /-- The connection to the service was lost. Such an event has no path. -/
  | disconnected
  deriving DecidableEq, Repr, Inhabited

/-- A change that watches hear of. -/
structure Event where
  kind : EventKind
  path : String
  deriving DecidableEq, Repr, Inhabited

namespace Event

/-- The event of a lost connection. -/
def lost : Event := ⟨.disconnected, ""⟩

/-- Whether a watch of `path` hears of the event. -/
def concerns (e : Event) (path : String) : Bool := e.path = path || e.kind = .disconnected

end Event

/-- The tree: cells by path, and the start of the paths that refuse writes, if any. -/
structure Tree where
  cells : OrderedMap Cell
  locked : Option String
  deriving DecidableEq

/-- The result of a write: what it answers, the new tree, and what it causes. -/
structure Written (α : Type) where
  result : α
  tree : Tree
  events : List Event

namespace Tree

/-- The tree with the root alone. -/
def empty : Tree := ⟨OrderedMap.empty.insert Path.root ⟨[], 0, 0⟩, none⟩

instance : Inhabited Tree := ⟨empty⟩

/-- The paths of the direct children, ascending. -/
def childPaths (t : Tree) (path : String) : List String :=
  let start := Path.childStart path
  (((t.cells.startingAt start).map (·.1)).takeWhile (Path.startsWith start)).filter
    fun key => key ≠ Path.root && !(key.toList.drop start.length).contains '/'

/-- The node that a cell is read as. -/
def nodeOf (t : Tree) (path : String) (c : Cell) : Node :=
  ⟨path, c.value, c.version, c.childVersion, (t.childPaths path).length⟩

/-- The node at a path. -/
def node? (t : Tree) (path : String) : Option Node :=
  (t.cells.get? path).map (t.nodeOf path)

/-- The number of nodes. -/
def size (t : Tree) : Nat := t.cells.size

/-- Whether there is no node but the root. -/
def isEmpty (t : Tree) : Bool := t.size = 1

/-- The number of paths below a path. -/
def countBelow (t : Tree) (path : String) : Nat :=
  t.cells.keys.countP (Path.startsWith (Path.childStart path))

end Tree

end Coordination
