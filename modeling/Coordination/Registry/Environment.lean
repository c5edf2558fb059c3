import Coordination.Registry.Batch

/-!
# Environments

The variables of a release, stored as nodes below the release's environment root. A name
with slashes puts its variable into nested groups; a group is a node without a value that
has children, and only nodes without children are variables. Groups that a change empties
are deleted with their last variable.
-/

namespace Coordination

/-- Variables by name. -/
abbrev Env := OrderedMap String

/-- Variables to write and names to delete. -/
structure EnvChange where
  update : Env
  delete : OrderedMap Unit
  deriving DecidableEq

namespace EnvChange

instance : Inhabited EnvChange := ⟨⟨.empty, .empty⟩⟩

/-- Whether nothing is written and nothing is deleted. -/
def isEmpty (c : EnvChange) : Bool := c.update.isEmpty && c.delete.isEmpty

/-- How a change is read. -/
def reader : RecordReader EnvChange :=
  EnvChange.mk <$> .optional "update" (Data.readTextMap .json) .empty
    <*> .optional "delete" Data.readTextSet .empty

/-- A change as a document value. -/
def toData (c : EnvChange) : Data :=
  .table [("update", .texts c.update.toList), ("delete", .list (c.delete.keys.map .text))]

end EnvChange

namespace Registry

/-- Collect the variables at leaves below `root`. -/
def readLeaves (root : String) : List Node → Env → Action Env
  | [], env => pure env
  | leaf :: rest, env => do
    let value ← leaf.decode
    readLeaves root rest (env.insert ((leaf.relativeTo? root).getD leaf.name) value)

/-- The variables of a release, and the revision of its environment. -/
def getEnv (r : Registry) (id : ReleaseId) : Action (Env × Nat) := do
  let path ← r.path (.envRoot id)
  let root ← Action.node path
  let nodes ← Action.call (.visit path fun _ => true)
  let env ← readLeaves path (nodes.filter Node.isLeaf) .empty
  pure (env, root.revision)

/-- The writes of variables. -/
def variableWrites (r : Registry) (id : ReleaseId) :
    List (String × String) → Action (List (String × Bytes))
  | [] => pure []
  | (name, value) :: rest => do
    let w ← r.derive (id.variable name value)
    let ws ← r.variableWrites id rest
    pure (w :: ws)

/-- The paths of variables. -/
def variablePaths (r : Registry) (id : ReleaseId) : List String → Action (List String)
  | [] => pure []
  | name :: rest => do
    let path ← r.path (id.variable name "")
    let paths ← r.variablePaths id rest
    pure (path :: paths)

/-- Create the environment of a release with variables, and answer its revision. There must
be none yet. -/
def newEnv (r : Registry) (id : ReleaseId) (vars : Env) : Action Nat := do
  let (path, value) ← r.derive (.envRoot id)
  let _ ← Action.createNew path value
  let creates ← r.variableWrites id vars.toList
  let _ ← Batch.apply ⟨creates, [], []⟩ [path]
  let root ← Action.node path
  pure root.revision

/-- Delete empty groups from a list of ancestors, the nearest first, and stop at the first
one that stays. The number of deleted groups is the answer. -/
def pruneUp (root : String) : List String → Action Nat
  | [] => pure 0
  | group :: rest =>
    if Path.startsWith (root ++ "/") group then do
      match ← Action.attempt (.get group) with
      | .error (.notFound _) => pure 0
      | .error e => throw (.tree e)
      | .ok n =>
        if !n.isLeaf ∨ n.value ≠ [] then pure 0
        else
          match ← Action.attempt (.delete group) with
          | .error (.notFound _) => pure 0
          | .error (.notEmpty _) => pure 0
          | .error e => throw (.tree e)
          | .ok _ => do
            let more ← pruneUp root rest
            pure (more + 1)
    else pure 0

/-- Delete the groups below `root` that the removal of nodes leaves empty. -/
def pruneGroups (root : String) : List String → Action Nat
  | [] => pure 0
  | removed :: rest => do
    let n ← pruneUp root (Path.ancestors removed)
    let m ← pruneGroups root rest
    pure (n + m)

/-- Change the variables of a release, if its environment is at the expected revision. -/
def saveEnv (r : Registry) (id : ReleaseId) (change : EnvChange) (expected : Nat) :
    Action ChangeSummary := do
  let path ← r.path (.envRoot id)
  let root ← Action.node path
  root.checkRevision expected
  if change.isEmpty then pure ⟨0, 0, 0⟩
  else
    let writes ← r.variableWrites id change.update.toList
    let deletes ← r.variablePaths id change.delete.keys
    let batch ← Batch.plan writes deletes
    let summary ← batch.apply []
    let _ ← pruneGroups path batch.deletes
    pure summary

end Registry

end Coordination
