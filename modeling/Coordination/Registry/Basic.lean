import Coordination.Namespace.Standard
import Coordination.Text.Quoted
import Coordination.Tree.Program

/-!
# The registry

Typed access to the records of the tree. Every operation of the registry is a program over
the tree that ends in a result or in an error. A directory's revision is the number of
changes of its children; conditional writes name the revision that they were decided on.
-/

namespace Coordination

/-- Why a write that depends on the state of the tree is refused. -/
inductive Conflict where
  /-- The directory is at another revision than the writer read. -/
  | revision (expected actual : Nat)
  /-- What was to be created is already there. -/
  | exists
  deriving DecidableEq, Repr, Inhabited

namespace Conflict

/-- The wording of the conflict. -/
def message : Conflict → String
  | .revision expected actual => s!"expected revision {expected}, found {actual}"
  | .exists => "already exists"

end Conflict

/-- Why a value cannot be read as what it stands for. -/
inductive DecodeFault where
  | text (e : Text.Utf8.DecodeError)
  | count (s : String)
  deriving DecidableEq, Repr, Inhabited

namespace DecodeFault

/-- The wording of the fault. -/
def message : DecodeFault → String
  | .text e => e.message
  | .count s => s!"container count {Text.quoted s} is not a number"

end DecodeFault

/-- Why an operation of the registry fails. -/
inductive RegistryError where
  | notFound (path : String)
  | conflict (path : String) (reason : Conflict)
  /-- Some writes of a batch took effect before one failed. -/
  | partiallyApplied (applied : List String) (failed : String) (source : TreeError)
  | decode (path : String) (fault : DecodeFault)
  | template (e : TemplateError)
  | tree (e : TreeError)
  deriving Inhabited

namespace RegistryError

/-- The wording of the error. -/
def message : RegistryError → String
  | .notFound path => "not found: " ++ path
  | .conflict path reason => s!"conflict at {path}: {reason.message}"
  | .partiallyApplied applied failed source =>
    s!"{applied.length} write(s) applied before {failed} failed: {source.message}"
  | .decode path fault => s!"invalid data at {path}: {fault.message}"
  | .template e => e.message
  | .tree e => e.message

end RegistryError

/-- A program over the tree that may end in an error of the registry. -/
abbrev Action := ExceptT RegistryError Program

namespace Action

/-- Make a call and go on whether it fails or not. -/
def attempt (c : Call) : Action (Except TreeError c.Reply) :=
  ExceptT.lift (Program.perform c)

/-- Make a call; if it fails, so does the action. -/
def call (c : Call) : Action c.Reply := do
  match ← attempt c with
  | .ok reply => pure reply
  | .error e => throw (.tree e)

/-- The result of a computation with templates. -/
def ofTemplate {α : Type} : Except TemplateError α → Action α
  | .ok a => pure a
  | .error e => throw (.template e)

/-- Read a node. That it is missing is an error of the registry, not of the tree. -/
def node (path : String) : Action Node := do
  match ← attempt (.get path) with
  | .ok n => pure n
  | .error (.notFound _) => throw (.notFound path)
  | .error e => throw (.tree e)

/-- Whether a node exists. -/
def present (path : String) : Action Bool := do
  match ← attempt (.get path) with
  | .ok _ => pure true
  | .error (.notFound _) => pure false
  | .error e => throw (.tree e)

/-- Create a node that must not exist yet. -/
def createNew (path : String) (value : Bytes) : Action Node := do
  match ← attempt (.create path value) with
  | .ok n => pure n
  | .error (.alreadyExists _) => throw (.conflict path .exists)
  | .error e => throw (.tree e)

/-- Write a value, creating the node if it does not exist. -/
def put (path : String) (value : Bytes) : Action Unit := do
  match ← attempt (.create path value) with
  | .ok _ => pure ()
  | .error (.alreadyExists _) =>
    let _ ← node path
    let _ ← call (.set path value)
  | .error e => throw (.tree e)

/-- The direct children of a node. -/
def children (path : String) : Action (List Node) := call (.visit path fun _ => false)

end Action

namespace Node

/-- The revision of a directory: how often its set of children changed. -/
def revision (n : Node) : Nat := n.childVersion

/-- Fail unless the directory is at the expected revision. -/
def checkRevision (n : Node) (expected : Nat) : Action Unit :=
  if n.revision = expected then pure ()
  else throw (.conflict n.path (.revision expected n.revision))

/-- The value of the node as a text. -/
def decode (n : Node) : Action String :=
  match Text.Utf8.decode n.value with
  | .ok s => pure s
  | .error e => throw (.decode n.path (.text e))

end Node

/-- The registry: the templates by which it finds its way in the tree. -/
structure Registry where
  templates : TemplateSet

namespace Registry

instance : Inhabited Registry := ⟨⟨.standard⟩⟩

/-- The path of an entry. -/
def path (r : Registry) (e : Entry) : Action String :=
  .ofTemplate (r.templates.path e)

/-- The path and the payload of an entry. -/
def derive (r : Registry) (e : Entry) : Action (String × Bytes) := do
  let (path, value) ← Action.ofTemplate (r.templates.derive e)
  pure (path, Text.Utf8.encode value)

/-- Store an entry, in place of one at the same path. -/
def store (r : Registry) (e : Entry) : Action Unit := do
  let (path, value) ← r.derive e
  Action.put path value

end Registry

end Coordination
