import Coordination.Proofs.Tree.Trace
import Coordination.Registry.Configuration
import Coordination.Registry.Environment

/-!
# What templates give

The templates give the path and the value of each entry, or fail, without a call on the tree.
For several entries they give a list, up to the first that fails.
-/

namespace Coordination

namespace Action

variable {α β : Type}

theorem ofTemplate_bind (x : Except TemplateError α) (f : α → Except TemplateError β) :
    ofTemplate (x >>= f) = ofTemplate x >>= fun a => ofTemplate (f a) := by
  cases x <;> rfl

theorem ofTemplate_map (x : Except TemplateError α) (f : α → β) :
    ofTemplate (x.map f) = ofTemplate x >>= fun a => pure (f a) := by
  cases x <;> rfl

/-- A computation with templates, made for one argument after another. -/
theorem ofTemplate_mapM_cons {f : α → Except TemplateError β} (a : α) (rest : List α) :
    ofTemplate ((a :: rest).mapM f) = (do
      let b ← ofTemplate (f a)
      let bs ← ofTemplate (rest.mapM f)
      pure (b :: bs)) := by
  rw [List.mapM_cons, ofTemplate_bind]
  congr 1
  funext b
  exact ofTemplate_bind _ _

end Action

namespace Registry

variable (r : Registry) (kind : ConfKind) (scope : Scope) (id : ReleaseId)

/-- The path of an entry and what is stored there. -/
def cell (e : Entry) : Except TemplateError (String × Bytes) :=
  (r.templates.derive e).map fun w => (w.1, Text.Utf8.encode w.2)

/-- The path of an object and its value. -/
def objectCell (o : String × Bytes) : Except TemplateError (String × Bytes) :=
  (r.templates.path (.confObject kind scope o.1)).map (·, o.2)

theorem derive_eq (e : Entry) : r.derive e = .ofTemplate (r.cell e) :=
  (Action.ofTemplate_map _ _).symm

theorem templates_path_eq (e : Entry) : r.templates.path e = (r.cell e).map Prod.fst := by
  rw [TemplateSet.path, cell]
  cases r.templates.derive e <;> rfl

theorem path_eq (e : Entry) : r.path e = .ofTemplate ((r.cell e).map Prod.fst) := by
  rw [path, templates_path_eq]

theorem store_eq {r : Registry} {e : Entry} {p : String} {v : Bytes}
    (h : r.cell e = .ok (p, v)) : r.store e = Action.put p v := by
  rw [store, derive_eq, h]
  rfl

theorem variableWrites_eq (vars : List (String × String)) :
    r.variableWrites id vars =
      .ofTemplate (vars.mapM fun v => r.cell (id.variable v.1 v.2)) := by
  induction vars with
  | nil => rfl
  | cons v rest ih =>
    rw [variableWrites, Action.ofTemplate_mapM_cons, derive_eq, ih]

theorem variablePaths_eq (names : List String) :
    r.variablePaths id names =
      .ofTemplate (names.mapM fun name => r.templates.path (id.variable name "")) := by
  induction names with
  | nil => rfl
  | cons name rest ih =>
    rw [variablePaths, Action.ofTemplate_mapM_cons, path, ih]

theorem objectWrites_eq (objects : List (String × Bytes)) :
    r.objectWrites kind scope objects = .ofTemplate (objects.mapM (r.objectCell kind scope)) := by
  induction objects with
  | nil => rfl
  | cons o rest ih =>
    rw [objectWrites, Action.ofTemplate_mapM_cons, ih, objectPath, path, objectCell,
      Action.ofTemplate_map]
    simp only [bind_assoc, pure_bind]

theorem objectPaths_eq (names : List String) :
    r.objectPaths kind scope names =
      .ofTemplate (names.mapM fun name => r.templates.path (.confObject kind scope name)) := by
  induction names with
  | nil => rfl
  | cons name rest ih =>
    rw [objectPaths, Action.ofTemplate_mapM_cons, objectPath, path, ih]

end Registry

end Coordination
