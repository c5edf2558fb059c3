import Coordination.Proofs.Registry.Batch
import Coordination.Proofs.Registry.Templates
import Coordination.Proofs.Tree.Directory
import Coordination.Registry.Configuration
import Coordination.Registry.Environment

/-!
# Directories that templates place

Nothing in a registry ties the path of an entry to that of the directory which it belongs to:
both come from templates of their own. Where these agree, so that every variable stands right
behind the root of its environment and every object right behind its tier, what is left of
an operation are its calls on the tree below one path.
-/

namespace Coordination

namespace Registry

variable {r : Registry} {id : ReleaseId} {kind : ConfKind} {scope : Scope} {d : String}
variable {v : Bytes}

/-- The templates place an environment at `d`, where they store `v`, and its variables right
behind it. -/
structure PlacesEnv (r : Registry) (id : ReleaseId) (d : String) (v : Bytes) : Prop where
  root : r.cell (.envRoot id) = .ok (d, v)
  entry : ∀ name value, r.cell (id.variable name value) =
    .ok (d ++ "/" ++ name, Text.Utf8.encode value)

/-- The templates place a tier at `d` and its objects right behind it. -/
structure PlacesTier (r : Registry) (kind : ConfKind) (scope : Scope) (d : String) : Prop where
  root : r.templates.path (.confRoot kind scope) = .ok d
  object : ∀ name, r.templates.path (.confObject kind scope name) = .ok (d ++ "/" ++ name)

namespace PlacesEnv

theorem path (h : r.PlacesEnv id d v) : r.path (.envRoot id) = pure d := by
  rw [path_eq, h.root]
  rfl

theorem cells (h : r.PlacesEnv id d v) (vars : List (String × String)) :
    (vars.mapM fun w => r.cell (id.variable w.1 w.2)) =
      .ok (vars.map fun w => (d ++ "/" ++ w.1, Text.Utf8.encode w.2)) := by
  rw [funext fun w : String × String => h.entry w.1 w.2]
  exact List.mapM_pure

theorem paths (h : r.PlacesEnv id d v) (names : List String) :
    (names.mapM fun name => r.templates.path (id.variable name "")) =
      .ok (names.map (d ++ "/" ++ ·)) := by
  have hpath (name : String) :
      r.templates.path (id.variable name "") = .ok (d ++ "/" ++ name) := by
    rw [templates_path_eq, h.entry]
    rfl
  rw [funext hpath]
  exact List.mapM_pure

theorem variableWrites (h : r.PlacesEnv id d v) (vars : List (String × String)) :
    r.variableWrites id vars =
      pure (vars.map fun w => (d ++ "/" ++ w.1, Text.Utf8.encode w.2)) := by
  rw [variableWrites_eq, h.cells]
  rfl

theorem getEnv_eq (h : r.PlacesEnv id d v) : r.getEnv id = (do
    let root ← Action.node d
    let nodes ← Action.call (.visit d fun _ => true)
    let env ← readLeaves d (nodes.filter Node.isLeaf) .empty
    pure (env, root.revision)) := by
  rw [getEnv, h.path]
  rfl

theorem newEnv_eq (h : r.PlacesEnv id d v) (vars : Env) : r.newEnv id vars = (do
    let _ ← Action.createNew d v
    let _ ← Batch.apply
      ⟨vars.toList.map fun w => (d ++ "/" ++ w.1, Text.Utf8.encode w.2), [], []⟩ [d]
    let root ← Action.node d
    pure root.revision) := by
  rw [newEnv, derive_eq, h.root, h.variableWrites]
  rfl

end PlacesEnv

namespace PlacesTier

theorem tierPath (h : r.PlacesTier kind scope d) : r.tierPath kind scope = pure d := by
  rw [Registry.tierPath, path, h.root]
  rfl

theorem objectPath (h : r.PlacesTier kind scope d) (name : String) :
    r.objectPath kind scope name = pure (d ++ "/" ++ name) := by
  rw [Registry.objectPath, path, h.object]
  rfl

theorem cells (h : r.PlacesTier kind scope d) (objects : List (String × Bytes)) :
    objects.mapM (r.objectCell kind scope) =
      .ok (objects.map fun o => (d ++ "/" ++ o.1, o.2)) := by
  have hcell : r.objectCell kind scope = fun o => pure (d ++ "/" ++ o.1, o.2) := by
    funext o
    rw [objectCell, h.object]
    rfl
  rw [hcell]
  exact List.mapM_pure

theorem paths (h : r.PlacesTier kind scope d) (names : List String) :
    (names.mapM fun name => r.templates.path (.confObject kind scope name)) =
      .ok (names.map (d ++ "/" ++ ·)) := by
  rw [funext h.object]
  exact List.mapM_pure

theorem objectWrites (h : r.PlacesTier kind scope d) (objects : List (String × Bytes)) :
    r.objectWrites kind scope objects = pure (objects.map fun o => (d ++ "/" ++ o.1, o.2)) := by
  rw [objectWrites_eq, h.cells]
  rfl

theorem objectPaths (h : r.PlacesTier kind scope d) (names : List String) :
    r.objectPaths kind scope names = pure (names.map (d ++ "/" ++ ·)) := by
  rw [objectPaths_eq, h.paths]
  rfl

theorem listConf_eq (h : r.PlacesTier kind scope d) : r.listConf kind scope = (do
    let root ← Action.node d
    let nodes ← Action.children d
    pure (nodes.map Node.name, root.revision)) := by
  rw [listConf, h.tierPath]
  rfl

theorem readConf_eq (h : r.PlacesTier kind scope d) (name : String) :
    r.readConf kind scope name = (do
      let root ← Action.node d
      let object ← Action.node (d ++ "/" ++ name)
      pure ⟨name, object.value, scope.tier, root.revision⟩) := by
  rw [readConf, h.tierPath, h.objectPath]
  rfl

theorem newConf_eq (h : r.PlacesTier kind scope d) (objects : OrderedMap Bytes) :
    r.newConf kind scope objects = (do
      let _ ← Action.createNew d []
      let _ ← Batch.apply
        ⟨objects.toList.map fun o => (d ++ "/" ++ o.1, o.2), [], []⟩ [d]
      let root ← Action.node d
      pure root.revision) := by
  rw [newConf, h.tierPath, h.objectWrites]
  rfl

end PlacesTier

end Registry

/-- What is read of a tier at `d` that holds the directory. -/
def Directory.object (dir : Directory) (d : String) (tier : Tier) (name : String) :
    Except RegistryError ConfObject :=
  match dir.values.get? name with
  | none => .error (.notFound (d ++ "/" ++ name))
  | some data => .ok ⟨name, data, tier, dir.revision⟩

namespace Tree

variable {t : Tree} {r : Registry} {kind : ConfKind} {scope : Scope} {d : String}

/-! ## Tiers where nothing is made to fail -/

/-- A tier that is missing can be created with objects, and holds these then. -/
theorem run_newConf (hplaces : r.PlacesTier kind scope d) (ht : t.Sound)
    (hu : t.locked = none) (hp : Path.isValid d = true) (hd : d ≠ Path.root)
    (hmissing : ¬ t.Has d) {objects : OrderedMap Bytes}
    (hnames : ∀ name ∈ objects.keys, Path.IsName name) :
    ∃ t', t.run (r.newConf kind scope objects).run = (.ok objects.size, t') ∧
      Makes t (.create d [] :: objects.toList.map fun o => .create (d ++ "/" ++ o.1) o.2) t' ∧
      t'.Holds d (.fresh objects) := by
  obtain ⟨n, hcreate⟩ := respond_create_of_not_has hu hp hmissing []
  obtain ⟨n', hnew⟩ := run_createNew_of_not_has hu hp hmissing []
  have hempty := Holds.of_created ht hp hd hmissing
  obtain ⟨t', hmakes, hholds⟩ := hempty.makes_fresh (sound_created ht hp [])
    ((locked_created t _ _).trans hu) hp hd hnames
  have happly : (t.created d []).run (Batch.apply
      ⟨objects.toList.map fun o => (d ++ "/" ++ o.1, o.2), [], []⟩ [d]).run =
        (.ok ⟨(objects.toList.map fun o => (d ++ "/" ++ o.1, o.2)).length, 0, 0⟩, t') := by
    refine Makes.run_apply ?_ _
    rw [Batch.calls, List.map_nil, List.map_nil, List.append_nil, List.append_nil, List.map_map]
    exact hmakes
  obtain ⟨root, hnode, hrevision⟩ := run_node_of_revision hp hholds.revision
  refine ⟨t', ?_, .cons hcreate hmakes, hholds⟩
  rw [hplaces.newConf_eq, run_bind_ok hnew, run_bind_ok happly, run_bind_ok hnode, hrevision]
  rfl

namespace Holds

variable {dir : Directory}

theorem run_listConf (h : t.Holds d dir) (hplaces : r.PlacesTier kind scope d) (ht : t.Sound)
    (hd : d ≠ Path.root) :
    t.run (r.listConf kind scope).run = (.ok (dir.values.keys, dir.revision), t) := by
  have hp := ht.valid h.has
  obtain ⟨root, hnode, hrevision⟩ := run_node_of_revision hp h.revision
  have hchildren := run_visit hp h.has fun _ => false
  rw [hplaces.listConf_eq, run_bind_ok hnode, Action.children, run_bind_ok hchildren, hrevision,
    h.map_name_nodesBelow ht hp hd]
  rfl

theorem run_readConf (h : t.Holds d dir) (hplaces : r.PlacesTier kind scope d) (ht : t.Sound)
    (hd : d ≠ Path.root) {name : String} (hname : Path.IsName name) :
    t.run (r.readConf kind scope name).run = (dir.object d scope.tier name, t) := by
  have hp := ht.valid h.has
  have hobject := Path.isValid_child hp hd hname
  obtain ⟨root, hroot, hrevision⟩ := run_node_of_revision hp h.revision
  have hvalue := h.value name hname
  rw [hplaces.readConf_eq, run_bind_ok hroot, Directory.object]
  cases hdata : dir.values.get? name with
  | none =>
    rw [hdata] at hvalue
    exact run_bind_error (run_node_of_not_has hobject (value?_eq_none_iff.1 hvalue))
  | some data =>
    rw [hdata] at hvalue
    obtain ⟨object, hnode, hbytes⟩ := run_node_of_value hobject hvalue
    rw [run_bind_ok hnode, hrevision, hbytes]
    rfl

end Holds

end Tree

end Coordination
