import Coordination.Proofs.Registry.Outcome
import Coordination.Proofs.Registry.Standard
import Coordination.Session.Step

/-!
# Changes of directories

Creating an environment or a tier, and changing one, are made alike: the directory is created
or checked, the templates give the writes, and these are applied as one batch. Creating makes
all of them, in the order of the names; a change plans them first. What is left to do when the
batch is applied is to read the directory again, or to delete the groups that are empty now.
-/

namespace Coordination

theorem EnvChange.lists_of_isEmpty {c : EnvChange} (h : c.isEmpty = true) :
    c.update.toList = [] ∧ c.delete.keys = [] := by
  rw [isEmpty, OrderedMap.isEmpty, OrderedMap.isEmpty, Bool.and_eq_true, List.isEmpty_iff,
    List.isEmpty_iff] at h
  rw [OrderedMap.keys, h.2]
  exact ⟨h.1, rfl⟩

/-- That nothing is done for an empty change makes no difference: its batch is empty. -/
theorem Registry.saveEnv_eq (r : Registry) (id : ReleaseId) (change : EnvChange)
    (expected : Nat) : r.saveEnv id change expected = (do
      let path ← r.path (.envRoot id)
      let root ← Action.node path
      root.checkRevision expected
      let writes ← r.variableWrites id change.update.toList
      let deletes ← r.variablePaths id change.delete.keys
      let batch ← Batch.plan writes deletes
      let summary ← batch.apply []
      let _ ← pruneGroups path batch.deletes
      pure summary) := by
  cases hempty : change.isEmpty with
  | false =>
    rw [saveEnv, hempty]
    rfl
  | true =>
    obtain ⟨hupdate, hdelete⟩ := EnvChange.lists_of_isEmpty hempty
    rw [saveEnv, hempty, hupdate, hdelete]
    rfl

/-! ## The parts of a change -/

/-- A change of a directory that is made as one batch. -/
inductive DirectoryChange where
  | newEnv (id : ReleaseId) (vars : Env)
  | newConf (kind : ConfKind) (scope : Scope) (objects : OrderedMap Bytes)
  | saveEnv (id : ReleaseId) (change : EnvChange) (expected : Nat)
  | saveConf (kind : ConfKind) (scope : Scope) (change : ConfChange) (expected : Nat)
  deriving DecidableEq

namespace DirectoryChange

/-- The operation of the registry that the change is. -/
def step : DirectoryChange → RegistryStep
  | .newEnv id vars => .newEnv id vars
  | .newConf kind scope objects => .newConf kind scope objects
  | .saveEnv id change expected => .saveEnv id change expected
  | .saveConf kind scope change expected => .saveConf kind scope change expected

/-- The revision that the directory has to be at, if it has to be there at all. -/
def expected? : DirectoryChange → Option Nat
  | .newEnv .. | .newConf .. => none
  | .saveEnv _ _ expected | .saveConf _ _ _ expected => some expected

variable (r : Registry)

/-- The path of the directory, and the value that a new one has. -/
def root : DirectoryChange → Except TemplateError (String × Bytes)
  | .newEnv id _ | .saveEnv id _ _ => r.cell (.envRoot id)
  | .newConf kind scope _ | .saveConf kind scope _ _ =>
    (r.templates.path (.confRoot kind scope)).map (·, [])

/-- The values to write, in the order of their names. -/
def writes : DirectoryChange → Except TemplateError (List (String × Bytes))
  | .newEnv id vars => vars.toList.mapM fun v => r.cell (id.variable v.1 v.2)
  | .saveEnv id change _ => change.update.toList.mapM fun v => r.cell (id.variable v.1 v.2)
  | .newConf kind scope objects => objects.toList.mapM (r.objectCell kind scope)
  | .saveConf kind scope change _ => change.update.toList.mapM (r.objectCell kind scope)

/-- The paths to delete, in the order of their names. -/
def deletes : DirectoryChange → Except TemplateError (List String)
  | .newEnv .. | .newConf .. => .ok []
  | .saveEnv id change _ =>
    change.delete.keys.mapM fun name => r.templates.path (id.variable name "")
  | .saveConf kind scope change _ =>
    change.delete.keys.mapM fun name => r.templates.path (.confObject kind scope name)

/-- Create or check the directory at a path, and find its batch. -/
def batch (c : DirectoryChange) (path : String) (value : Bytes) : Action Batch :=
  match c.expected? with
  | none => do
    let _ ← Action.createNew path value
    let writes ← Action.ofTemplate (c.writes r)
    pure ⟨writes, [], []⟩
  | some expected => do
    let root ← Action.node path
    root.checkRevision expected
    let writes ← Action.ofTemplate (c.writes r)
    let deletes ← Action.ofTemplate (c.deletes r)
    Batch.plan writes deletes

/-- All that is done before the batch is applied. -/
def prepare (c : DirectoryChange) : Action (String × Batch) := do
  let w ← Action.ofTemplate (c.root r)
  let b ← c.batch r w.1 w.2
  pure (w.1, b)

/-- The writes that are reported before those of the batch. -/
def lead (c : DirectoryChange) (path : String) : List String :=
  match c.expected? with
  | none => [path]
  | some _ => []

/-- What is left to do when the batch is applied. -/
def finish (path : String) (b : Batch) (summary : ChangeSummary) : DirectoryChange → Action Answer
  | .newEnv .. | .newConf .. => do
    let root ← Action.node path
    pure (.number root.revision)
  | .saveEnv .. => do
    let _ ← Registry.pruneGroups path b.deletes
    pure (.summary summary)
  | .saveConf .. => pure (.summary summary)

/-- A change is prepared, applied and finished. -/
theorem action_eq (c : DirectoryChange) : c.step.action r = (do
    let (path, b) ← c.prepare r
    let summary ← b.apply (c.lead path)
    c.finish path b summary) := by
  cases c with
  | newEnv id vars =>
    simp only [step, RegistryStep.action, Registry.newEnv, prepare, root, batch, expected?, writes,
      lead, finish, Registry.derive_eq, Registry.variableWrites_eq, bind_assoc, pure_bind]
  | newConf kind scope objects =>
    simp only [step, RegistryStep.action, Registry.newConf, Registry.tierPath, Registry.path,
      prepare, root, batch, expected?, writes, lead, finish, Registry.objectWrites_eq,
      Action.ofTemplate_map, bind_assoc, pure_bind]
  | saveConf kind scope change expected =>
    simp only [step, RegistryStep.action, Registry.saveConf, Registry.tierPath, Registry.path,
      prepare, root, batch, expected?, writes, deletes, lead, finish, Registry.objectWrites_eq,
      Registry.objectPaths_eq, Action.ofTemplate_map, bind_assoc, pure_bind]
  | saveEnv id change expected =>
    simp only [step, RegistryStep.action, Registry.saveEnv_eq, Registry.path_eq,
      prepare, root, batch, expected?, writes, deletes, lead, finish, Registry.variableWrites_eq,
      Registry.variablePaths_eq, Action.ofTemplate_map, bind_assoc, pure_bind]

end DirectoryChange

/-! ## Preparing -/

namespace Service

variable {α : Type} {s s' : Service}

theorem eq_ok_of_run_ofTemplate {x : Except TemplateError α} {a : α}
    (h : s.run (Action.ofTemplate x).run = (.ok a, s')) : x = .ok a ∧ s' = s := by
  cases x with
  | ok b =>
    cases h
    exact ⟨rfl, rfl⟩
  | error e => cases h

theorem eq_of_run_checkRevision {n : Node} {expected : Nat} {u : Unit}
    (h : s.run (n.checkRevision expected).run = (.ok u, s')) :
    n.revision = expected ∧ s' = s := by
  rw [Node.checkRevision] at h
  split at h
  · cases h
    exact ⟨‹_›, rfl⟩
  · cases h

/-- A node that was created anew was missing. -/
theorem created_of_run_createNew {p : String} {v : Bytes} {n : Node}
    (h : s.run (Action.createNew p v).run = (.ok n, s')) :
    Path.isValid p = true ∧ ¬ s.tree.Has p ∧ s'.tree = s.tree.created p v := by
  obtain ⟨reply, s₁, hattempt, h⟩ := exists_of_run_bind_eq_ok h
  obtain ⟨hreply, rfl⟩ := eq_of_run_attempt hattempt
  cases reply with
  | error e => cases e <;> cases h
  | ok m =>
    cases h
    exact Tree.created_of_respond (respond_of_answer hreply.symm)

theorem removed_of_run_delete {p : String} {u : Unit}
    (h : s.run (Action.call (.delete p)).run = (.ok u, s')) :
    ∃ parent, Path.parent? p = some parent ∧ s.tree.Has p ∧ s.tree.childPaths p = [] ∧
      s'.tree = s.tree.removed p parent := by
  obtain ⟨hanswer, rfl⟩ := answer_of_run_call h
  exact Tree.removed_of_respond (respond_of_answer hanswer)

end Service

namespace DirectoryChange

variable (r : Registry) (c : DirectoryChange) (s : Service)

/-- The batch of a change, and what was done before it is applied: a new directory was created
and gets all the values; a directory that is there is as it was, and what is there tells the
values to create from those to set, and the paths to delete from those to drop. -/
inductive Prepared : String → Batch → Service → Prop where
  | created {path : String} {value : Bytes} {writes : List (String × Bytes)} {s₁ : Service}
    (new : c.expected? = none) (root : c.root r = .ok (path, value))
    (writes_eq : c.writes r = .ok writes) (valid : Path.isValid path = true)
    (missing : ¬ s.tree.Has path) (tree : s₁.tree = s.tree.created path value) :
    Prepared path ⟨writes, [], []⟩ s₁
  | planned {path : String} {value : Bytes} {expected : Nat} {writes : List (String × Bytes)}
    {deletes : List String} {b : Batch} {s₁ : Service} (old : c.expected? = some expected)
    (root : c.root r = .ok (path, value)) (writes_eq : c.writes r = .ok writes)
    (deletes_eq : c.deletes r = .ok deletes) (revision : s.tree.revision? path = some expected)
    (tree : s₁.tree = s.tree) (split : s.Splits writes b.creates b.updates)
    (kept : s.Retains deletes b.deletes) : Prepared path b s₁

variable {r c s} {s₁ : Service} {path : String} {b : Batch}

theorem prepared_of_run (h : s.run (c.prepare r).run = (.ok (path, b), s₁)) :
    c.Prepared r s path b s₁ := by
  obtain ⟨⟨path', value⟩, _, hderive, htail⟩ := Service.exists_of_run_bind_eq_ok h
  obtain ⟨hroot, rfl⟩ := Service.eq_ok_of_run_ofTemplate hderive
  obtain ⟨b', s₂, hbatch, hpure⟩ := Service.exists_of_run_bind_eq_ok htail
  cases hpure
  rw [batch] at hbatch
  cases hexpected : c.expected? with
  | none =>
    rw [hexpected] at hbatch
    obtain ⟨n, s₃, hnew, hrest⟩ := Service.exists_of_run_bind_eq_ok hbatch
    obtain ⟨hvalid, hmissing, htree⟩ := Service.created_of_run_createNew hnew
    obtain ⟨writes, _, hcells, hpure⟩ := Service.exists_of_run_bind_eq_ok hrest
    obtain ⟨hwrites, rfl⟩ := Service.eq_ok_of_run_ofTemplate hcells
    cases hpure
    exact .created hexpected hroot hwrites hvalid hmissing htree
  | some expected =>
    rw [hexpected] at hbatch
    obtain ⟨n, s₃, hnode, hchecked⟩ := Service.exists_of_run_bind_eq_ok hbatch
    have hresumes := Service.resumes_of_reads (Action.unconditional_node trivial) hnode
    obtain ⟨_, hrevision⟩ := Service.revision?_of_run_node hnode
    obtain ⟨_, _, hcheck, hderived⟩ := Service.exists_of_run_bind_eq_ok hchecked
    obtain ⟨rfl, rfl⟩ := Service.eq_of_run_checkRevision hcheck
    obtain ⟨writes, _, hcells, hrest⟩ := Service.exists_of_run_bind_eq_ok hderived
    obtain ⟨hwrites, rfl⟩ := Service.eq_ok_of_run_ofTemplate hcells
    obtain ⟨deletes, _, hpaths, hplanned⟩ := Service.exists_of_run_bind_eq_ok hrest
    obtain ⟨hdeletes, rfl⟩ := Service.eq_ok_of_run_ofTemplate hpaths
    obtain ⟨hplan, hsplits, hretains⟩ := Service.splits_of_run_plan hplanned
    exact .planned hexpected hroot hwrites hdeletes hrevision (hresumes.trans hplan).tree
      (hresumes.splits hsplits) (hresumes.retains hretains)

theorem Prepared.exists_root (h : c.Prepared r s path b s₁) :
    ∃ value, c.root r = .ok (path, value) := by
  cases h with
  | created new root writes_eq valid missing tree => exact ⟨_, root⟩
  | planned old root writes_eq deletes_eq revision tree split kept => exact ⟨_, root⟩

/-! ## Whole changes -/

/-- How a change can go: it may fail before there is a batch; it may end with a write of the
batch that fails; or the batch is applied, and the rest of the change follows. -/
inductive Course (r : Registry) (c : DirectoryChange) (s : Service) :
    Except RegistryError Answer → Service → List (Call × Option TreeError) → Prop where
  | unprepared {e : RegistryError} {s' : Service}
    (prepare : s.run (c.prepare r).run = (.error e, s')) :
    Course r c s (.error e) s' (s.trace (c.prepare r).run)
  | stopped {path : String} {b : Batch} {e : RegistryError} {s₁ s' : Service}
    {tried : List (Call × Option TreeError)}
    (prepare : s.run (c.prepare r).run = (.ok (path, b), s₁))
    (prepared : c.Prepared r s path b s₁)
    (outcome : b.Outcome (c.lead path) s₁ (.error e) s' tried) :
    Course r c s (.error e) s' (s.trace (c.prepare r).run ++ tried)
  | applied {path : String} {b : Batch} {s₁ s₂ s' : Service}
    {tried : List (Call × Option TreeError)} {reply : Except RegistryError Answer}
    (prepare : s.run (c.prepare r).run = (.ok (path, b), s₁))
    (prepared : c.Prepared r s path b s₁)
    (apply : s₁.run (b.apply (c.lead path)).run = (.ok b.summary, s₂))
    (outcome : b.Outcome (c.lead path) s₁ (.ok b.summary) s₂ tried)
    (finish : s₂.run (c.finish path b b.summary).run = (reply, s')) :
    Course r c s reply s'
      (s.trace (c.prepare r).run ++ (tried ++ s₂.trace (c.finish path b b.summary).run))

/-- A change whose batch fails ends with that; one whose batch is applied goes on. -/
theorem run_of_apply {s₂ : Service} {reply : Except RegistryError ChangeSummary}
    (hprepare : s.run (c.prepare r).run = (.ok (path, b), s₁))
    (happly : s₁.run (b.apply (c.lead path)).run = (reply, s₂)) :
    let tried := s₁.trace (b.apply (c.lead path)).run
    (∀ e, reply = .error e → s.run (c.step.action r).run = (.error e, s₂) ∧
      s.trace (c.step.action r).run = s.trace (c.prepare r).run ++ tried) ∧
    ∀ n, reply = .ok n →
      s.run (c.step.action r).run = s₂.run (c.finish path b n).run ∧
      s.trace (c.step.action r).run =
        s.trace (c.prepare r).run ++ (tried ++ s₂.trace (c.finish path b n).run) := by
  intro tried
  rw [action_eq, Service.run_bind_ok hprepare, Service.trace_bind_ok hprepare]
  constructor
  · rintro e rfl
    rw [Service.run_bind_error happly, Service.trace_bind_error happly]
    exact ⟨rfl, rfl⟩
  · rintro n rfl
    rw [Service.run_bind_ok happly, Service.trace_bind_ok happly]
    exact ⟨rfl, rfl⟩

/-- For all templates, on all trees and with all faults, every change takes its course. -/
theorem course_of_run (r : Registry) (c : DirectoryChange) (s : Service) :
    c.Course r s (s.run (c.step.action r).run).1 (s.run (c.step.action r).run).2
      (s.trace (c.step.action r).run) := by
  rcases hprepare : s.run (c.prepare r).run with ⟨e | ⟨path, b⟩, s₁⟩
  · rw [action_eq, Service.run_bind_error hprepare, Service.trace_bind_error hprepare]
    exact .unprepared hprepare
  · have hprepared := prepared_of_run hprepare
    have houtcome := s₁.outcome_apply b (c.lead path)
    rcases happly : s₁.run (b.apply (c.lead path)).run with ⟨e | n, s₂⟩
    · obtain ⟨hrun, htrace⟩ := (run_of_apply hprepare happly).1 e rfl
      rw [happly] at houtcome
      rw [hrun, htrace]
      exact .stopped hprepare hprepared houtcome
    · obtain ⟨hrun, htrace⟩ := (run_of_apply hprepare happly).2 n rfl
      rw [happly] at houtcome
      rw [hrun, htrace]
      obtain rfl := houtcome.eq_summary rfl
      exact .applied hprepare hprepared happly houtcome rfl

/-- For all templates, on all trees and with all faults: the batch of a change consists of what
the change writes and deletes, told apart by what is there. Applying it either makes all of its
writes, or makes those before one that fails and reports exactly them, or fails with the first
and changes nothing. A change whose batch fails ends with that, and tries nothing more. -/
theorem applies_prefix_of_batch (r : Registry) (c : DirectoryChange) {s s₁ s₂ : Service}
    {path : String} {b : Batch} {reply : Except RegistryError ChangeSummary}
    (hprepare : s.run (c.prepare r).run = (.ok (path, b), s₁))
    (happly : s₁.run (b.apply (c.lead path)).run = (reply, s₂)) :
    c.Prepared r s path b s₁ ∧ ∃ tried, b.Outcome (c.lead path) s₁ reply s₂ tried ∧
      (∀ e, reply = .error e → s.run (c.step.action r).run = (.error e, s₂) ∧
        s.trace (c.step.action r).run = s.trace (c.prepare r).run ++ tried) ∧
      ∀ n, reply = .ok n →
        s.run (c.step.action r).run = s₂.run (c.finish path b n).run ∧
        s.trace (c.step.action r).run =
          s.trace (c.prepare r).run ++ (tried ++ s₂.trace (c.finish path b n).run) := by
  have houtcome := s₁.outcome_apply b (c.lead path)
  rw [happly] at houtcome
  exact ⟨prepared_of_run hprepare, _, houtcome, run_of_apply hprepare happly⟩

end DirectoryChange

/-! ## A change that stops midway -/

/-- The writes that an operation reports, the one that failed, and why. -/
def progress? {α : Type} : Except RegistryError α → Option (List String × String × TreeError)
  | .error (.partiallyApplied applied failed source) => some (applied, failed, source)
  | _ => none

theorem eq_of_progress? {α : Type} {reply : Except RegistryError α} {applied : List String}
    {failed : String} {source : TreeError} (h : progress? reply = some (applied, failed, source)) :
    reply = .error (.partiallyApplied applied failed source) := by
  rcases reply with e | a
  · cases e <;> cases h
    rfl
  · cases h

namespace StoppedMidway

/-- A variable is overwritten, and two are added. -/
def change : DirectoryChange :=
  .saveEnv ⟨"d", "s", "v"⟩
    ⟨((OrderedMap.empty.insert "A" "2").insert "B" "3").insert "C" "4", .empty⟩ 1

/-- An environment with the variable, where the last of the new ones cannot be created. -/
def service : Service :=
  (Service.fresh.run (Registry.standard.newEnv ⟨"d", "s", "v"⟩
    (OrderedMap.empty.insert "A" "1")).run).2.plan
      ⟨.create, "/d/s/v/env/C", .backend "down", 0⟩

/-- The service when the batch is found, and what becomes of the batch. -/
def prepared : Service := (service.run (change.prepare .standard).run).2

/-- The batch: what is missing is created first. -/
def batch : Batch where
  creates := [("/d/s/v/env/B", Text.Utf8.encode "3"), ("/d/s/v/env/C", Text.Utf8.encode "4")]
  updates := [("/d/s/v/env/A", Text.Utf8.encode "2")]
  deletes := []

/-- What the batch ends in. -/
def stopped : Service := (prepared.run (batch.apply []).run).2

/-- The first creation is reported, the second failed, and nothing else was tried. -/
theorem first_creation_reported : ∃ tried,
    batch.Outcome [] prepared (.error (.partiallyApplied ["/d/s/v/env/B"] "/d/s/v/env/C"
      (.backend "down"))) stopped tried ∧
    service.trace (change.step.action .standard).run =
      service.trace (change.prepare .standard).run ++ tried := by
  have hprepare : service.run (change.prepare .standard).run =
      (.ok ("/d/s/v/env", batch), prepared) :=
    Prod.ext (eq_ok_of_toOption (by decide +kernel)) rfl
  have happly : prepared.run (batch.apply (change.lead "/d/s/v/env")).run =
      (.error (.partiallyApplied ["/d/s/v/env/B"] "/d/s/v/env/C" (.backend "down")), stopped) :=
    Prod.ext (eq_of_progress? (by decide +kernel)) rfl
  obtain ⟨_, tried, houtcome, herror, _⟩ :=
    DirectoryChange.applies_prefix_of_batch .standard change hprepare happly
  exact ⟨tried, houtcome, (herror _ rfl).2⟩

end StoppedMidway

end Coordination
