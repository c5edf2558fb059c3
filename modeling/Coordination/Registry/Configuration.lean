import Coordination.Registry.Batch

/-!
# Configuration objects

Named objects in two tiers of directories. Reading at an override scope falls back to the
base scope when the override tier or the object in it is missing; writing and listing
concern one tier only.
-/

namespace Coordination

/-- An object, with the tier that it came from and the revision of that tier. -/
structure ConfObject where
  name : String
  data : Bytes
  tier : Tier
  revision : Nat
  deriving DecidableEq, Repr, Inhabited

namespace ConfObject

/-- The object as a text, with replacement characters where it is none. -/
def text (o : ConfObject) : String := Text.Utf8.decodeLenient o.data

end ConfObject

/-- Objects to write and names to delete. -/
structure ConfChange where
  update : OrderedMap Bytes
  delete : OrderedMap Unit
  deriving DecidableEq

namespace Registry

/-- The path of a tier. -/
def tierPath (r : Registry) (kind : ConfKind) (scope : Scope) : Action String :=
  r.path (.confRoot kind scope)

/-- The path of an object. -/
def objectPath (r : Registry) (kind : ConfKind) (scope : Scope) (name : String) :
    Action String :=
  r.path (.confObject kind scope name)

/-- The names of the objects of a tier, and its revision. -/
def listConf (r : Registry) (kind : ConfKind) (scope : Scope) :
    Action (List String × Nat) := do
  let path ← r.tierPath kind scope
  let root ← Action.node path
  let nodes ← Action.children path
  pure (nodes.map Node.name, root.revision)

/-- Read an object of one tier. -/
def readConf (r : Registry) (kind : ConfKind) (scope : Scope) (name : String) :
    Action ConfObject := do
  let path ← r.tierPath kind scope
  let root ← Action.node path
  let path ← r.objectPath kind scope name
  let object ← Action.node path
  pure ⟨name, object.value, scope.tier, root.revision⟩

/-- Read an object, from the scope that stands behind the given one if it is missing. -/
def getConf (r : Registry) (kind : ConfKind) (scope : Scope) (name : String) :
    Action ConfObject :=
  tryCatch (r.readConf kind scope name) fun e =>
    match e, scope.fallback? with
    | .notFound _, some base => r.readConf kind base name
    | e, _ => throw e

/-- The writes of objects. -/
def objectWrites (r : Registry) (kind : ConfKind) (scope : Scope) :
    List (String × Bytes) → Action (List (String × Bytes))
  | [] => pure []
  | (name, data) :: rest => do
    let path ← r.objectPath kind scope name
    let ws ← r.objectWrites kind scope rest
    pure ((path, data) :: ws)

/-- The paths of objects. -/
def objectPaths (r : Registry) (kind : ConfKind) (scope : Scope) :
    List String → Action (List String)
  | [] => pure []
  | name :: rest => do
    let path ← r.objectPath kind scope name
    let paths ← r.objectPaths kind scope rest
    pure (path :: paths)

/-- Create a tier with objects, and answer its revision. It must not exist yet. -/
def newConf (r : Registry) (kind : ConfKind) (scope : Scope) (objects : OrderedMap Bytes) :
    Action Nat := do
  let path ← r.tierPath kind scope
  let _ ← Action.createNew path []
  let creates ← r.objectWrites kind scope objects.toList
  let _ ← Batch.apply ⟨creates, [], []⟩ [path]
  let root ← Action.node path
  pure root.revision

/-- Change the objects of a tier, if it is at the expected revision. -/
def saveConf (r : Registry) (kind : ConfKind) (scope : Scope) (change : ConfChange)
    (expected : Nat) : Action ChangeSummary := do
  let path ← r.tierPath kind scope
  let root ← Action.node path
  root.checkRevision expected
  let writes ← r.objectWrites kind scope change.update.toList
  let deletes ← r.objectPaths kind scope change.delete.keys
  let batch ← Batch.plan writes deletes
  batch.apply []

/-- Delete one object of a tier that is at the expected revision, and answer the new
revision. -/
def deleteConf (r : Registry) (kind : ConfKind) (scope : Scope) (name : String)
    (expected : Nat) : Action Nat := do
  let path ← r.tierPath kind scope
  let root ← Action.node path
  root.checkRevision expected
  let object ← r.objectPath kind scope name
  let _ ← Action.node object
  Action.call (.delete object)
  let root ← Action.node path
  pure root.revision

end Registry

end Coordination
