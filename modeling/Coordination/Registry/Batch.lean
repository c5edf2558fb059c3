import Coordination.Registry.Basic

/-!
# Batches of writes

A change of a directory is a batch: first the nodes to create, then those to set, then
those to delete. The tree is read once to tell them apart, and the writes follow one by one
in that order until one fails. A failure says which writes took effect before it.
-/

namespace Coordination

/-- How many writes of each kind a change made. -/
structure ChangeSummary where
  created : Nat
  updated : Nat
  deleted : Nat
  deriving DecidableEq, Repr, Inhabited

/-- Writes below one directory. -/
structure Batch where
  creates : List (String × Bytes)
  updates : List (String × Bytes)
  deletes : List String
  deriving DecidableEq, Repr, Inhabited

namespace Batch

/-- The writes in the order in which they are made. -/
def calls (b : Batch) : List Call :=
  b.creates.map (fun w => .create w.1 w.2) ++ b.updates.map (fun w => .set w.1 w.2) ++
    b.deletes.map .delete

/-- The number of writes of each kind. -/
def summary (b : Batch) : ChangeSummary :=
  ⟨b.creates.length, b.updates.length, b.deletes.length⟩

/-- Tell the writes to missing nodes from those to existing ones. -/
def planWrites : List (String × Bytes) → Action (List (String × Bytes) × List (String × Bytes))
  | [] => pure ([], [])
  | w :: rest => do
    let there ← Action.present w.1
    let (creates, updates) ← planWrites rest
    pure (if there then (creates, w :: updates) else (w :: creates, updates))

/-- Keep the paths of existing nodes. -/
def planDeletes : List String → Action (List String)
  | [] => pure []
  | path :: rest => do
    let there ← Action.present path
    let kept ← planDeletes rest
    pure (if there then path :: kept else kept)

/-- The batch that writes values and deletes nodes. Deleting a missing node is no write. -/
def plan (writes : List (String × Bytes)) (deletes : List String) : Action Batch := do
  let (creates, updates) ← planWrites writes
  let deletes ← planDeletes deletes
  pure ⟨creates, updates, deletes⟩

/-- Make writes after those already applied. -/
def applyCalls (applied : List String) : List Call → Action Unit
  | [] => pure ()
  | c :: rest => do
    match ← Action.attempt c with
    | .ok _ => applyCalls (applied ++ [c.path]) rest
    | .error e =>
      if applied = [] then throw (.tree e)
      else throw (.partiallyApplied applied c.path e)

/-- Make the writes of a batch after those already applied. -/
def apply (b : Batch) (applied : List String) : Action ChangeSummary := do
  applyCalls applied b.calls
  pure b.summary

end Batch

end Coordination
