import Coordination.Proofs.Registry.Errors
import Coordination.Reload.Cycle

/-!
# What a cycle reads

A cycle reads the template and the environment of its rule, and causes no events. Without
faults it leaves the service as it is, and what it leaves in the files is a function of the
tree: of the effective template, which is that of the tier of the rule or, where this has none,
that of the tier behind it, and of the environment as it is then.
-/

namespace Coordination

namespace Action

variable {α β : Type}

/-- Reading causes no events. -/
theorem Reads.events {x : Action α} (hx : x.Reads) (s : Service) :
    (s.run x.run).2.events = s.events := by
  refine Program.Keeps.run_invariant (I := fun s' : Service => s'.events = s.events) hx ?_ rfl
  intro c s' hc hevents
  have hfaults : (s'.accept c.kind c.path).2.events = s'.events := by
    rw [Service.accept]
    split <;> rfl
  rw [Service.answer]
  rcases haccept : s'.accept c.kind c.path with ⟨_ | u, s''⟩
  · rw [haccept] at hfaults
    exact hfaults.trans hevents
  · rw [haccept] at hfaults
    cases c with
    | get p => exact (List.append_nil _).trans (hfaults.trans hevents)
    | visit p enter => exact (List.append_nil _).trans (hfaults.trans hevents)
    | create p v => exact absurd hc (by simp [Call.IsRead])
    | set p v => exact absurd hc (by simp [Call.IsRead])
    | delete p => exact absurd hc (by simp [Call.IsRead])

/-- Where no call is made to fail, reading leaves the service as it is. -/
theorem Reads.service {x : Action α} (hx : x.Reads) {s : Service} (hs : s.faults = []) :
    (s.run x.run).2 = s := by
  have htree : (s.run x.run).2.tree = s.tree := hx.tree rfl
  have hfaults : (s.run x.run).2.faults = [] := (Service.run_of_faults_eq_nil x.run hs).2.2
  have hevents := hx.events s
  cases hrun : (s.run x.run).2 with
  | mk tree faults events =>
    rw [hrun] at htree hfaults hevents
    cases s with
    | mk tree' faults' events' =>
      simp only at htree hfaults hevents hs
      rw [htree, hfaults, hevents, hs]

theorem Reads.map {x : Action α} (hx : x.Reads) (f : α → β) : Action.Reads (x.map f) := by
  refine Program.Keeps.bind hx fun result _ => ?_
  cases result with
  | ok a => trivial
  | error e => trivial

end Action

namespace Tree

variable {α β : Type}

/-- What an action finds in a tree where no call is made to fail. -/
def read (x : Action α) (t : Tree) : Except RegistryError α := (t.run x.run).1

theorem run_of_reads {x : Action α} (hx : x.Reads) (t : Tree) : t.run x.run = (t.read x, t) := by
  have hservice : (Service.mk t [] []).faults = [] := rfl
  obtain ⟨-, htree, -⟩ := Service.run_of_faults_eq_nil x.run hservice
  rw [hx.service hservice] at htree
  exact Prod.ext rfl htree.symm

theorem read_bind {x : Action α} (hx : x.Reads) (f : α → Action β) (t : Tree) :
    t.read (x >>= f) = (t.read x).bind fun a => t.read (f a) := by
  have hrun := run_of_reads hx t
  rw [read, run]
  cases hread : t.read x with
  | error e =>
    rw [hread] at hrun
    rw [Action.run_bind_error hrun]
    rfl
  | ok a =>
    rw [hread] at hrun
    rw [Action.run_bind_ok hrun]
    rfl

theorem read_tryCatch {x : Action α} (hx : x.Reads) (handle : RegistryError → Action α)
    (t : Tree) : t.read (tryCatch x handle) =
      match t.read x with
      | .ok a => .ok a
      | .error e => t.read (handle e) := by
  have hrun : Program.run respond x.run t = (t.read x, t) := run_of_reads hx t
  rw [read, run, Action.run_tryCatch, hrun]
  cases t.read x <;> rfl

theorem read_map {x : Action α} (hx : x.Reads) (f : α → β) (t : Tree) :
    t.read (x.map f) = (t.read x).map f := by
  have hrun : Program.run respond x.run t = (t.read x, t) := run_of_reads hx t
  refine (congrArg Prod.fst (Program.run_bind respond x.run _ t)).trans ?_
  rw [hrun]
  cases t.read x <;> rfl

end Tree

namespace ReloadRule

variable (rule : ReloadRule) (r : Registry)

/-- The template that counts: that of the tier of the rule or, where this has none, that of the
tier behind it. -/
def effective (t : Tree) : Except RegistryError ConfObject :=
  match t.read (r.readConf rule.kind rule.scope rule.template), rule.scope.fallback? with
  | .error (.notFound _), some base => t.read (r.readConf rule.kind base rule.template)
  | own, _ => own

/-- The environment of the release of the rule, without variables if there is none. -/
def currentEnv (t : Tree) : Except RegistryError Env :=
  match t.read (r.getEnv rule.env) with
  | .ok (env, _) => .ok env
  | .error (.notFound _) => .ok .empty
  | .error e => .error e

/-- What a cycle leaves in the files: the effective template rendered with the environment is
written, and the command is run; if it cannot be rendered, nothing happens. -/
def filesAfter (t : Tree) (files : Files) : Files :=
  match rule.effective r t, rule.currentEnv r t with
  | .ok object, .ok env =>
    match rule.renderText object.text env with
    | .ok text => (rule.install text files).2
    | .error _ => files
  | _, _ => files

theorem reads_readEnv : (rule.readEnv r).Reads := by
  refine Action.Keeps.tryCatch ((r.reads_getEnv rule.env).map Prod.fst) fun e _ => ?_
  split
  · exact Action.reads_pure _
  · exact Action.reads_throw _

theorem reads_readSources : (rule.readSources r).Reads := by
  refine (r.reads_getConf rule.kind rule.scope rule.template).bind fun object => ?_
  exact (reads_readEnv rule r).bind fun env => Action.reads_pure _

theorem read_getConf (t : Tree) :
    t.read (r.getConf rule.kind rule.scope rule.template) = rule.effective r t := by
  rw [Registry.getConf, Tree.read_tryCatch (r.reads_readConf _ _ _), effective]
  cases t.read (r.readConf rule.kind rule.scope rule.template) with
  | ok object => rfl
  | error e =>
    cases rule.scope.fallback? with
    | none => cases e <;> rfl
    | some base => cases e <;> rfl

theorem read_readEnv (t : Tree) : t.read (rule.readEnv r) = rule.currentEnv r t := by
  rw [readEnv, Tree.read_tryCatch ((r.reads_getEnv rule.env).map Prod.fst),
    Tree.read_map (r.reads_getEnv rule.env), currentEnv]
  cases t.read (r.getEnv rule.env) with
  | ok found => rfl
  | error e => cases e <;> rfl

theorem read_readSources (t : Tree) : t.read (rule.readSources r) =
    (rule.effective r t).bind fun object =>
      (rule.currentEnv r t).map fun env => (object.text, env) := by
  rw [readSources, Tree.read_bind (r.reads_getConf _ _ _), read_getConf]
  congr 1
  funext object
  rw [Tree.read_bind (reads_readEnv rule r), read_readEnv]
  cases rule.currentEnv r t <;> rfl

theorem cycle_service (w : Workspace) :
    (rule.cycle r w).2.service = (w.service.run (rule.readSources r).run).2 := by
  rw [cycle]
  rcases w.service.run (rule.readSources r).run with ⟨e | found, service⟩
  · rfl
  · simp only
    cases rule.renderText found.1 found.2 <;> rfl

/-- A cycle changes no node and causes no event. -/
theorem cycle_frame (w : Workspace) :
    (rule.cycle r w).2.service.tree = w.service.tree ∧
      (rule.cycle r w).2.service.events = w.service.events := by
  rw [cycle_service]
  exact ⟨(reads_readSources rule r).tree rfl, (reads_readSources rule r).events w.service⟩

/-- Without faults a cycle leaves the service as it is, and the files as they follow from the
tree. -/
theorem cycle_of_faults_eq_nil {w : Workspace} (h : w.service.faults = []) :
    (rule.cycle r w).2 = ⟨w.service, rule.filesAfter r w.service.tree w.files⟩ := by
  have hreads := reads_readSources rule r
  have hrun : w.service.run (rule.readSources r).run =
      ((rule.effective r w.service.tree).bind fun object =>
        (rule.currentEnv r w.service.tree).map fun env => (object.text, env), w.service) := by
    have hresult := (Service.run_of_faults_eq_nil (rule.readSources r).run h).1
    exact Prod.ext (hresult.trans (rule.read_readSources r w.service.tree)) (hreads.service h)
  rw [cycle, hrun, filesAfter]
  cases rule.effective r w.service.tree with
  | error e => rfl
  | ok object =>
    cases rule.currentEnv r w.service.tree with
    | error e => rfl
    | ok env =>
      simp only [Except.bind, Except.map]
      cases rule.renderText object.text env <;> rfl

end ReloadRule

end Coordination
