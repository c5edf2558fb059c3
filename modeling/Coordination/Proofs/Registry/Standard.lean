import Coordination.Proofs.Namespace.Paths
import Coordination.Proofs.Registry.Places
import Coordination.Proofs.Text.Utf8

/-!
# The registry with the standard templates

With the standard templates no operation on an environment or a tier fails for want of a
path. What is left of each are its calls on the tree.
-/

namespace Coordination.Registry

/-- The registry that uses the standard templates. -/
def standard : Registry := ⟨.standard⟩

variable (kind : ConfKind) (scope : Scope) (id : ReleaseId)

/-! ## Paths -/

theorem placesTier_standard : standard.PlacesTier kind scope (scope.path kind) where
  root := by
    rw [standard, TemplateSet.path, TemplateSet.derive_confRoot]
    rfl
  object name := by
    rw [standard, TemplateSet.path, TemplateSet.derive_confObject]
    rfl

theorem tierPath_standard : standard.tierPath kind scope = pure (scope.path kind) :=
  (placesTier_standard kind scope).tierPath

theorem objectPath_standard (name : String) :
    standard.objectPath kind scope name = pure (scope.objectPath kind name) :=
  (placesTier_standard kind scope).objectPath name

theorem objectWrites_standard (objects : List (String × Bytes)) :
    standard.objectWrites kind scope objects =
      pure (objects.map fun o => (scope.objectPath kind o.1, o.2)) :=
  (placesTier_standard kind scope).objectWrites objects

theorem objectPaths_standard (names : List String) :
    standard.objectPaths kind scope names = pure (names.map (scope.objectPath kind)) :=
  (placesTier_standard kind scope).objectPaths names

theorem placesEnv_standard : standard.PlacesEnv id id.envPath [] where
  root := by
    rw [cell, standard, TemplateSet.derive_envRoot]
    rfl
  entry name value := by
    rw [cell, standard, TemplateSet.derive_variable]
    rfl

theorem envPath_standard : standard.path (.envRoot id) = pure id.envPath :=
  (placesEnv_standard id).path

/-- The paths and values of variables. -/
theorem cells_standard (vars : List (String × String)) :
    (vars.mapM fun v => standard.cell (id.variable v.1 v.2)) =
      .ok (vars.map fun v => (id.envPath ++ "/" ++ v.1, Text.Utf8.encode v.2)) :=
  (placesEnv_standard id).cells vars

theorem paths_standard (names : List String) :
    (names.mapM fun name => standard.templates.path (id.variable name "")) =
      .ok (names.map fun name => id.envPath ++ "/" ++ name) :=
  (placesEnv_standard id).paths names

theorem variableWrites_standard (vars : List (String × String)) :
    standard.variableWrites id vars =
      pure (vars.map fun v => (id.envPath ++ "/" ++ v.1, Text.Utf8.encode v.2)) :=
  (placesEnv_standard id).variableWrites vars

theorem variablePaths_standard (names : List String) :
    standard.variablePaths id names = pure (names.map fun name => id.envPath ++ "/" ++ name) := by
  rw [variablePaths_eq, paths_standard]
  rfl

/-! ## Operations on tiers -/

/-- The writes of objects of a tier. -/
def objectCells (objects : OrderedMap Bytes) : List (String × Bytes) :=
  objects.toList.map fun o => (scope.objectPath kind o.1, o.2)

theorem listConf_standard : standard.listConf kind scope = (do
    let root ← Action.node (scope.path kind)
    let nodes ← Action.children (scope.path kind)
    pure (nodes.map Node.name, root.revision)) :=
  (placesTier_standard kind scope).listConf_eq

theorem readConf_standard (name : String) : standard.readConf kind scope name = (do
    let root ← Action.node (scope.path kind)
    let object ← Action.node (scope.objectPath kind name)
    pure ⟨name, object.value, scope.tier, root.revision⟩) :=
  (placesTier_standard kind scope).readConf_eq name

theorem newConf_standard (objects : OrderedMap Bytes) :
    standard.newConf kind scope objects = (do
      let _ ← Action.createNew (scope.path kind) []
      let _ ← Batch.apply ⟨objectCells kind scope objects, [], []⟩ [scope.path kind]
      let root ← Action.node (scope.path kind)
      pure root.revision) :=
  (placesTier_standard kind scope).newConf_eq objects

/-- What changing objects writes. -/
def confWrites (change : ConfChange) : Action ChangeSummary := do
  let batch ← Batch.plan (objectCells kind scope change.update)
    (change.delete.keys.map (scope.objectPath kind))
  batch.apply []

theorem saveConf_standard (change : ConfChange) (expected : Nat) :
    standard.saveConf kind scope change expected =
      Action.checked (scope.path kind) expected (confWrites kind scope change) := by
  rw [saveConf, tierPath_standard, objectWrites_standard, objectPaths_standard]
  rfl

/-- What deleting an object does. -/
def confDeletion (name : String) : Action Nat := do
  let _ ← Action.node (scope.objectPath kind name)
  Action.call (.delete (scope.objectPath kind name))
  let root ← Action.node (scope.path kind)
  pure root.revision

theorem deleteConf_standard (name : String) (expected : Nat) :
    standard.deleteConf kind scope name expected =
      Action.checked (scope.path kind) expected (confDeletion kind scope name) := by
  rw [deleteConf, tierPath_standard, objectPath_standard]
  rfl

/-! ## Operations on environments -/

/-- The writes of variables. -/
def variableCells (vars : Env) : List (String × Bytes) :=
  vars.toList.map fun v => (id.envPath ++ "/" ++ v.1, Text.Utf8.encode v.2)

theorem getEnv_standard : standard.getEnv id = (do
    let root ← Action.node id.envPath
    let nodes ← Action.call (.visit id.envPath fun _ => true)
    let env ← readLeaves id.envPath (nodes.filter Node.isLeaf) .empty
    pure (env, root.revision)) :=
  (placesEnv_standard id).getEnv_eq

theorem newEnv_standard (vars : Env) : standard.newEnv id vars = (do
    let _ ← Action.createNew id.envPath []
    let _ ← Batch.apply ⟨variableCells id vars, [], []⟩ [id.envPath]
    let root ← Action.node id.envPath
    pure root.revision) :=
  (placesEnv_standard id).newEnv_eq vars

/-- What changing variables writes. -/
def envWrites (change : EnvChange) : Action ChangeSummary :=
  if change.isEmpty then pure ⟨0, 0, 0⟩
  else do
    let batch ← Batch.plan (variableCells id change.update)
      (change.delete.keys.map fun name => id.envPath ++ "/" ++ name)
    let summary ← batch.apply []
    let _ ← pruneGroups id.envPath batch.deletes
    pure summary

theorem saveEnv_standard (change : EnvChange) (expected : Nat) :
    standard.saveEnv id change expected =
      Action.checked id.envPath expected (envWrites id change) := by
  rw [saveEnv, envPath_standard, variableWrites_standard, variablePaths_standard]
  rfl

end Coordination.Registry
