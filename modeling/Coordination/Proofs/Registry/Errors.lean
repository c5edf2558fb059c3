import Coordination.Proofs.Registry.DirectoryChange

/-!
# What an error leaves behind

An operation of the registry that ends in an error has mostly not written anything, or it
reports how far it came. Most operations write at most once, and a write that fails changes
nothing; a batch reports the writes before the one that fails. But an operation that goes on
after its writes can still fail, and then its error does not tell of them. The four ways in
which this happens are listed, with what they leave in the tree.
-/

namespace Coordination

/-- Passing a result on does not fail. -/
theorem Service.error_of_run_map {α β : Type} {x : Action α} {f : α → β} {s s' : Service}
    {e : RegistryError} (h : s.run (x >>= fun a => pure (f a)).run = (.error e, s')) :
    s.run x.run = (.error e, s') := by
  rcases hrun : s.run x.run with ⟨e' | a, s₁⟩
  · rw [run_bind_error hrun] at h
    cases h
    rfl
  · rw [run_bind_ok hrun] at h
    cases h

namespace Action

variable {α β : Type}

/-- The action only reads. -/
def Reads (x : Action α) : Prop := x.Keeps Call.IsRead (fun _ => True) fun _ => True

/-- Where the action ends in an error, the tree is as it was. -/
def Spares (x : Action α) : Prop :=
  ∀ (s s' : Service) (e : RegistryError), s.run x.run = (.error e, s') → s'.tree = s.tree

/-! ## Actions that only read -/

theorem Unconditional.reads {x : Action α} (h : x.Unconditional Call.IsRead) : x.Reads :=
  h.mono (fun _ hc => hc) (fun _ _ => trivial) fun _ _ => trivial

theorem reads_pure (a : α) : (pure a : Action α).Reads := keeps_pure trivial

theorem reads_throw (e : RegistryError) : (throw e : Action α).Reads := keeps_throw trivial

theorem Reads.bind {x : Action α} {f : α → Action β} (hx : x.Reads) (hf : ∀ a, (f a).Reads) :
    (x >>= f).Reads := Keeps.bind hx fun a _ => hf a

theorem reads_ofTemplate (x : Except TemplateError α) : (ofTemplate x).Reads := by
  cases x with
  | ok a => exact reads_pure a
  | error e => exact reads_throw _

theorem reads_node (p : String) : (node p).Reads := (unconditional_node trivial).reads

theorem reads_present (p : String) : (present p).Reads := (unconditional_present trivial).reads

theorem reads_visit (p : String) (enter : Node → Bool) : (call (.visit p enter)).Reads :=
  (unconditional_call trivial).reads

theorem reads_decode (n : Node) : n.decode.Reads := (unconditional_decode n).reads

theorem reads_checkRevision (n : Node) (expected : Nat) : (n.checkRevision expected).Reads :=
  keeps_checkRevision n expected

theorem Reads.tree {x : Action α} (hx : x.Reads) {s s' : Service}
    {r : Except RegistryError α} (h : s.run x.run = (r, s')) : s'.tree = s.tree :=
  (Service.resumes_of_reads hx h).tree

/-- Where an action fails that reads first, it fails in reading or afterwards. -/
theorem Reads.fails_after {x : Action α} {f : α → Action β} (hx : x.Reads) {t : Tree}
    {s s' : Service} {e : RegistryError} (hs : s.tree = t)
    (h : s.run (x >>= f).run = (.error e, s')) :
    s'.tree = t ∨ ∃ a s₁, s.run x.run = (.ok a, s₁) ∧ s₁.tree = t ∧
      s₁.run (f a).run = (.error e, s') := by
  rcases hrun : s.run x.run with ⟨e' | a, s₁⟩
  · left
    rw [Service.run_bind_error hrun] at h
    cases h
    exact (hx.tree hrun).trans hs
  · right
    rw [Service.run_bind_ok hrun] at h
    exact ⟨a, s₁, rfl, (hx.tree hrun).trans hs, h⟩

/-! ## Actions that spare the tree -/

theorem Reads.spares {x : Action α} (hx : x.Reads) : x.Spares := fun _ _ _ h => hx.tree h

/-- What is read before an action does not matter. -/
theorem Reads.bind_spares {x : Action α} {f : α → Action β} (hx : x.Reads)
    (hf : ∀ a, (f a).Spares) : (x >>= f).Spares := by
  intro s s' e h
  rcases hx.fails_after rfl h with htree | ⟨a, s₁, _, htree, hrest⟩
  · exact htree
  · exact (hf a _ _ _ hrest).trans htree

theorem Spares.map {x : Action α} (hx : x.Spares) (f : α → β) :
    (x >>= fun a => pure (f a)).Spares := fun _ _ _ h => hx _ _ _ (Service.error_of_run_map h)

/-- A call that fails changes nothing, so that it is enough to look at what follows then. -/
theorem spares_attempt {c : Call} {f : Except TreeError c.Reply → Action β}
    (hok : ∀ reply s e s', Service.run (f (.ok reply)).run s ≠ (.error e, s'))
    (herror : ∀ e, (f (.error e)).Spares) : (attempt c >>= f).Spares := by
  intro s s' e h
  have hattempt : s.run (attempt c).run = (.ok (s.answer c).1, (s.answer c).2) := rfl
  rw [Service.run_bind_ok hattempt] at h
  cases hanswer : (s.answer c).1 with
  | ok reply =>
    rw [hanswer] at h
    exact absurd h (hok reply _ e s')
  | error failure =>
    rw [hanswer] at h
    exact (herror failure _ _ _ h).trans (Service.tree_of_answer_error hanswer)

theorem spares_call (c : Call) : (call c).Spares := by
  refine spares_attempt (fun reply s e s' h => ?_) fun e => (reads_throw _).spares
  cases h

theorem spares_createNew (p : String) (v : Bytes) : (createNew p v).Spares := by
  refine spares_attempt (fun reply s e s' h => ?_) fun e => ?_
  · cases h
  · cases e <;> exact (reads_throw _).spares

theorem spares_put (p : String) (v : Bytes) : (put p v).Spares := by
  refine spares_attempt (fun reply s e s' h => ?_) fun e => ?_
  · cases h
  · cases e with
    | alreadyExists path =>
      exact (reads_node p).bind_spares fun _ => (spares_call _).map _
    | _ => exact (reads_throw _).spares

end Action

namespace Registry

variable (r : Registry)

theorem reads_path (e : Entry) : (r.path e).Reads := Action.reads_ofTemplate _

theorem reads_derive (e : Entry) : (r.derive e).Reads :=
  (Action.reads_ofTemplate _).bind fun _ => Action.reads_pure _

theorem spares_store (e : Entry) : (r.store e).Spares :=
  (r.reads_derive e).bind_spares fun w => Action.spares_put w.1 w.2

theorem spares_registerContainer (c : Container) : (r.registerContainer c).Spares :=
  (r.reads_derive _).bind_spares fun w => (Action.spares_createNew w.1 w.2).map _

theorem spares_unregisterContainer (c : Container) : (r.unregisterContainer c).Spares :=
  (r.reads_path _).bind_spares fun p =>
    (Action.reads_node p).bind_spares fun _ => Action.spares_call _

/-! ## Operations that only read -/

theorem reads_readLeaves (root : String) (nodes : List Node) (found : Env) :
    (readLeaves root nodes found).Reads := by
  induction nodes generalizing found with
  | nil => exact Action.reads_pure _
  | cons n rest ih => exact (Action.reads_decode n).bind fun _ => ih _

theorem reads_getEnv (id : ReleaseId) : (r.getEnv id).Reads := by
  refine (r.reads_path _).bind fun path => ?_
  refine (Action.reads_node path).bind fun root => ?_
  refine (Action.reads_visit path _).bind fun nodes => ?_
  exact (reads_readLeaves _ _ _).bind fun env => Action.reads_pure _

theorem reads_listConf (kind : ConfKind) (scope : Scope) : (r.listConf kind scope).Reads := by
  refine (r.reads_path _).bind fun path => ?_
  refine (Action.reads_node path).bind fun root => ?_
  exact (Action.reads_visit path _).bind fun nodes => Action.reads_pure _

theorem reads_readConf (kind : ConfKind) (scope : Scope) (name : String) :
    (r.readConf kind scope name).Reads := by
  refine (r.reads_path _).bind fun path => ?_
  refine (Action.reads_node path).bind fun root => ?_
  refine (r.reads_path _).bind fun path => ?_
  exact (Action.reads_node path).bind fun object => Action.reads_pure _

theorem reads_getConf (kind : ConfKind) (scope : Scope) (name : String) :
    (r.getConf kind scope name).Reads := by
  refine Action.Keeps.tryCatch (r.reads_readConf kind scope name) fun e _ => ?_
  split
  · exact r.reads_readConf kind _ name
  · exact Action.reads_throw _

theorem reads_getRelease (id : ReleaseId) : (r.getRelease id).Reads := by
  refine (r.reads_path _).bind fun path => ?_
  refine (Action.reads_node path).bind fun n => ?_
  exact (Action.reads_decode n).bind fun image => Action.reads_pure _

theorem reads_getImageCount (release : Release) : (r.getImageCount release).Reads := by
  refine (r.reads_path _).bind fun path => ?_
  refine (Action.reads_node path).bind fun n => ?_
  refine (Action.reads_decode n).bind fun text => ?_
  split
  · exact Action.reads_pure _
  · exact Action.reads_throw _

theorem reads_listContainers (release : Release) : (r.listContainers release).Reads := by
  refine (r.reads_path _).bind fun path => ?_
  refine (Action.reads_present path).bind fun there => ?_
  split
  · exact (Action.reads_visit path _).bind fun nodes => Action.reads_pure _
  · exact Action.reads_pure _

theorem reads_livePointer (release : Release) : (r.livePointer release).Reads := by
  refine (r.reads_path _).bind fun containers => ?_
  exact (r.reads_path _).bind fun env => Action.reads_pure _

theorem reads_getLive (domain service : String) : (r.getLive domain service).Reads := by
  refine (r.reads_path _).bind fun path => ?_
  refine (Action.reads_node path).bind fun n => ?_
  exact (Action.reads_decode n).bind fun value => Action.reads_pure _

end Registry

theorem Batch.reads_plan (writes : List (String × Bytes)) (deletes : List String) :
    (plan writes deletes).Reads := by
  have hwrites : (planWrites writes).Reads :=
    (keeps_planWrites fun w _ => trivial).mono (fun _ hc => hc) (fun _ _ => trivial)
      fun _ _ => trivial
  have hdeletes : (planDeletes deletes).Reads :=
    (keeps_planDeletes fun p _ => trivial).mono (fun _ hc => hc) (fun _ _ => trivial)
      fun _ _ => trivial
  exact hwrites.bind fun split => hdeletes.bind fun kept => Action.reads_pure _

/-! ## Operations that go on after a write -/

/-- What an error that does not report its writes can leave behind: a live pointer was stored,
but the watched node could not be touched; a directory was created, but its values have no
paths; a batch was applied, but the change could not be finished; an object was deleted, but
its tier could not be read again. -/
inductive FailsLate (r : Registry) (s : Service) :
    RegistryStep → RegistryError → Service → Prop where
  | untouched {p : LivePointer} {e : RegistryError} {s₁ s' : Service}
    (stored : s.run (r.store (.live p)).run = (.ok (), s₁))
    (failed : s₁.run (r.store (.liveWatch p.domain p.service)).run = (.error e, s'))
    (tree : s'.tree = s₁.tree) : FailsLate r s (.setLive p) e s'
  | unplaced {c : DirectoryChange} {path : String} {value : Bytes} {e : TemplateError}
    {s' : Service} (new : c.expected? = none) (root : c.root r = .ok (path, value))
    (failed : c.writes r = .error e) (missing : ¬ s.tree.Has path)
    (tree : s'.tree = s.tree.created path value) : FailsLate r s c.step (.template e) s'
  | unfinished {c : DirectoryChange} {path : String} {b : Batch} {e : RegistryError}
    {s₁ s₂ s' : Service} (prepared : c.Prepared r s path b s₁)
    (applied : s₁.tree.Makes b.calls s₂.tree)
    (failed : s₂.run (c.finish path b b.summary).run = (.error e, s')) :
    FailsLate r s c.step e s'
  | unread {kind : ConfKind} {scope : Scope} {name tier object parent : String}
    {revision : Nat} {e : RegistryError} {s₁ s' : Service}
    (paths : r.templates.path (.confRoot kind scope) = .ok tier ∧
      r.templates.path (.confObject kind scope name) = .ok object)
    (deleted : Path.parent? object = some parent ∧ s.tree.Has object ∧
      s.tree.childPaths object = [] ∧ s₁.tree = s.tree.removed object parent)
    (failed : s₁.run (Action.node tier).run = (.error e, s')) (tree : s'.tree = s₁.tree) :
    FailsLate r s (.deleteConf kind scope name revision) e s'

namespace DirectoryChange

variable {r : Registry} {c : DirectoryChange} {s s' : Service} {e : RegistryError}

/-- What is changed is only read while its batch is found. -/
theorem reads_batch {expected : Nat} (h : c.expected? = some expected) (path : String)
    (value : Bytes) : (c.batch r path value).Reads := by
  rw [batch, h]
  refine (Action.reads_node path).bind fun root => ?_
  refine (Action.reads_checkRevision root expected).bind fun _ => ?_
  refine (Action.reads_ofTemplate _).bind fun writes => ?_
  refine (Action.reads_ofTemplate _).bind fun deletes => ?_
  exact Batch.reads_plan writes deletes

/-- Where the values have paths, nothing fails after a directory was created for them. -/
theorem spares_batch {writes : List (String × Bytes)} (h : c.writes r = .ok writes)
    (path : String) (value : Bytes) : (c.batch r path value).Spares := by
  cases hexpected : c.expected? with
  | some expected => exact (reads_batch hexpected path value).spares
  | none =>
    intro s s' e hrun
    rw [batch, hexpected] at hrun
    rcases hnew : s.run (Action.createNew path value).run with ⟨e' | n, s₁⟩
    · rw [Service.run_bind_error hnew] at hrun
      cases hrun
      exact Action.spares_createNew path value _ _ _ hnew
    · rw [Service.run_bind_ok hnew, h] at hrun
      cases hrun

theorem spares_prepare {writes : List (String × Bytes)} (h : c.writes r = .ok writes) :
    (c.prepare r).Spares :=
  (Action.reads_ofTemplate _).bind_spares fun w => (spares_batch h w.1 w.2).map _

/-- Until the batch is found nothing is written but a new directory. -/
theorem keeps_prepare (hroot : c.root r = .ok (path, value)) :
    (c.prepare r).Keeps (fun call => call.IsRead ∨ call = .create path value)
      (fun _ => True) fun _ => True := by
  have hreads {α : Type} {x : Action α} (hx : x.Reads) :
      x.Keeps (fun call => call.IsRead ∨ call = .create path value) (fun _ => True)
        fun _ => True := hx.mono (fun _ hc => Or.inl hc) (fun _ h => h) fun _ h => h
  have hbatch : (c.batch r path value).Keeps
      (fun call => call.IsRead ∨ call = .create path value) (fun _ => True) fun _ => True := by
    cases hexpected : c.expected? with
    | some expected => exact hreads (reads_batch hexpected path value)
    | none =>
      rw [batch, hexpected]
      have hnew : (Action.createNew path value).Unconditional
          fun call => call.IsRead ∨ call = .create path value :=
        Action.unconditional_createNew (Or.inr rfl)
      refine (hnew.mono (fun _ hc => hc) (fun _ h => h) fun _ _ => trivial).bind fun _ _ => ?_
      exact hreads ((Action.reads_ofTemplate _).bind fun _ => Action.reads_pure _)
  rw [prepare, hroot]
  exact hbatch.bind fun b _ => Action.keeps_pure trivial

/-- A new environment is only read when its batch is applied. -/
theorem reads_finish (id : ReleaseId) (vars : Env) (path : String) (b : Batch)
    (n : ChangeSummary) : (finish path b n (.newEnv id vars)).Reads :=
  (Action.reads_node path).bind fun _ => Action.reads_pure _

theorem late_of_batch {path : String} {value : Bytes} (hroot : c.root r = .ok (path, value))
    (h : s.run (c.batch r path value).run = (.error e, s')) :
    s'.tree = s.tree ∨ FailsLate r s c.step e s' := by
  cases hwrites : c.writes r with
  | ok writes => exact Or.inl (spares_batch hwrites path value _ _ _ h)
  | error failure =>
    cases hexpected : c.expected? with
    | some expected => exact Or.inl ((reads_batch hexpected path value).tree h)
    | none =>
      rw [batch, hexpected, hwrites] at h
      rcases hnew : s.run (Action.createNew path value).run with ⟨e' | n, s₁⟩
      · left
        rw [Service.run_bind_error hnew] at h
        cases h
        exact Action.spares_createNew path value _ _ _ hnew
      · right
        rw [Service.run_bind_ok hnew] at h
        obtain ⟨_, hmissing, htree⟩ := Service.created_of_run_createNew hnew
        cases h
        exact .unplaced hexpected hroot hwrites hmissing htree

/-- Preparing a change that fails has written nothing, unless it created a directory for
values that have no paths. -/
theorem late_of_prepare (h : s.run (c.prepare r).run = (.error e, s')) :
    s'.tree = s.tree ∨ FailsLate r s c.step e s' := by
  rw [prepare] at h
  rcases (Action.reads_ofTemplate _).fails_after rfl h with
    hsame | ⟨⟨path, value⟩, s₁, hderive, _, hrest⟩
  · exact Or.inl hsame
  · obtain ⟨hroot, rfl⟩ := Service.eq_ok_of_run_ofTemplate hderive
    exact late_of_batch hroot (Service.error_of_run_map hrest)

/-- A change that fails, and does not report its writes, has written nothing or fails late. -/
theorem late_of_run (h : s.run (c.step.action r).run = (.error e, s'))
    (hwhole : ∀ applied failed source, e ≠ .partiallyApplied applied failed source) :
    s'.tree = s.tree ∨ FailsLate r s c.step e s' := by
  have hcourse := course_of_run r c s
  rw [h] at hcourse
  generalize s.trace (c.step.action r).run = tried at hcourse
  cases hcourse with
  | unprepared hprepare => exact late_of_prepare hprepare
  | stopped hprepare hprepared houtcome =>
    left
    cases houtcome with
    | some calls applied makes => exact absurd rfl (hwhole _ _ _)
    | none calls first unchanged =>
      cases hprepared with
      | created new root writes_eq valid missing tree =>
        rw [lead, new] at first
        cases first
      | planned old root writes_eq deletes_eq revision tree split kept =>
        exact unchanged.trans tree
  | applied hprepare hprepared happly houtcome hfinish =>
    right
    cases houtcome with
    | all makes => exact .unfinished hprepared makes hfinish

end DirectoryChange

/-! ## All operations -/

theorem late_of_setLive {r : Registry} {p : LivePointer} {s s' : Service} {e : RegistryError}
    (h : s.run (r.setLive p).run = (.error e, s')) :
    s'.tree = s.tree ∨ FailsLate r s (.setLive p) e s' := by
  rcases hstore : s.run (r.store (.live p)).run with ⟨e' | _, s₁⟩
  · left
    rw [Registry.setLive, Service.run_bind_error hstore] at h
    cases h
    exact r.spares_store _ _ _ _ hstore
  · right
    rw [Registry.setLive, Service.run_bind_ok hstore] at h
    exact .untouched hstore h (r.spares_store _ _ _ _ h)

theorem late_of_deleteConf {r : Registry} {kind : ConfKind} {scope : Scope} {name : String}
    {revision : Nat} {s s' : Service} {e : RegistryError}
    (h : s.run (r.deleteConf kind scope name revision).run = (.error e, s')) :
    s'.tree = s.tree ∨ FailsLate r s (.deleteConf kind scope name revision) e s' := by
  rcases (r.reads_path _).fails_after rfl h with hsame | ⟨tier, s₁, htier, htree, h⟩
  · exact Or.inl hsame
  rcases (Action.reads_node tier).fails_after htree h with hsame | ⟨root, s₂, _, htree, h⟩
  · exact Or.inl hsame
  rcases (Action.reads_checkRevision root revision).fails_after htree h with
    hsame | ⟨_, s₃, _, htree, h⟩
  · exact Or.inl hsame
  rcases (r.reads_path _).fails_after htree h with hsame | ⟨object, s₄, hobject, htree, h⟩
  · exact Or.inl hsame
  rcases (Action.reads_node object).fails_after htree h with hsame | ⟨_, s₅, _, htree, h⟩
  · exact Or.inl hsame
  rcases hdelete : s₅.run (Action.call (.delete object)).run with ⟨e' | u, s₆⟩
  · left
    rw [Service.run_bind_error hdelete] at h
    cases h
    exact (Action.spares_call _ _ _ _ hdelete).trans htree
  · right
    rw [Service.run_bind_ok hdelete] at h
    obtain ⟨parent, hparent, hhas, hleaf, hremoved⟩ := Service.removed_of_run_delete hdelete
    rw [htree] at hhas hleaf hremoved
    rcases hnode : s₆.run (Action.node tier).run with ⟨e' | n, s₇⟩
    · rw [Service.run_bind_error hnode] at h
      cases h
      exact .unread ⟨(Service.eq_ok_of_run_ofTemplate htier).1,
        (Service.eq_ok_of_run_ofTemplate hobject).1⟩ ⟨hparent, hhas, hleaf, hremoved⟩ hnode
        ((Action.reads_node tier).tree hnode)
    · rw [Service.run_bind_ok hnode] at h
      cases h

/-- For all templates, on all trees and with all faults, an operation that ends in an error
either reports the writes before the failing one, or leaves the tree as it was, or fails late. -/
theorem unchanged_or_late (r : Registry) (op : RegistryStep) {s s' : Service}
    {e : RegistryError} (h : s.run (op.action r).run = (.error e, s'))
    (hwhole : ∀ applied failed source, e ≠ .partiallyApplied applied failed source) :
    s'.tree = s.tree ∨ FailsLate r s op e s' := by
  cases op with
  | newEnv id vars => exact DirectoryChange.late_of_run (c := .newEnv id vars) h hwhole
  | newConf kind scope objects =>
    exact DirectoryChange.late_of_run (c := .newConf kind scope objects) h hwhole
  | saveEnv id change revision =>
    exact DirectoryChange.late_of_run (c := .saveEnv id change revision) h hwhole
  | saveConf kind scope change revision =>
    exact DirectoryChange.late_of_run (c := .saveConf kind scope change revision) h hwhole
  | deleteConf kind scope name revision => exact late_of_deleteConf (Service.error_of_run_map h)
  | setLive p => exact late_of_setLive (Service.error_of_run_map h)
  | setRelease release => exact Or.inl ((r.spares_store _).map _ _ _ _ h)
  | touchRelease id => exact Or.inl ((r.spares_store _).map _ _ _ _ h)
  | setImageCount release count => exact Or.inl ((r.spares_store _).map _ _ _ _ h)
  | registerDashboard d => exact Or.inl ((r.spares_store _).map _ _ _ _ h)
  | registerContainer c => exact Or.inl ((r.spares_registerContainer c).map _ _ _ _ h)
  | unregisterContainer c => exact Or.inl ((r.spares_unregisterContainer c).map _ _ _ _ h)
  | readEnv id => exact Or.inl ((r.reads_getEnv id).spares.map _ _ _ _ h)
  | listConf kind scope => exact Or.inl ((r.reads_listConf kind scope).spares.map _ _ _ _ h)
  | getConf kind scope name =>
    exact Or.inl ((r.reads_getConf kind scope name).spares.map _ _ _ _ h)
  | getRelease id => exact Or.inl ((r.reads_getRelease id).spares.map _ _ _ _ h)
  | getImageCount release => exact Or.inl ((r.reads_getImageCount release).spares.map _ _ _ _ h)
  | listContainers release => exact Or.inl ((r.reads_listContainers release).spares.map _ _ _ _ h)
  | livePointer release => exact Or.inl ((r.reads_livePointer release).spares.map _ _ _ _ h)
  | getLive domain service => exact Or.inl ((r.reads_getLive domain service).spares.map _ _ _ _ h)

/-! ## A live pointer that nobody hears of -/

/-- The error of the tree that an operation failed with. -/
def treeError? {α : Type} : Except RegistryError α → Option TreeError
  | .error (.tree e) => some e
  | _ => none

theorem eq_of_treeError? {α : Type} {reply : Except RegistryError α} {e : TreeError}
    (h : treeError? reply = some e) : reply = .error (.tree e) := by
  rcases reply with e' | a
  · cases e' <;> cases h
    rfl
  · cases h

namespace Unheard

/-- What is made live. -/
def pointer : LivePointer := ⟨"d", "s", "/d/s/v/container/i", "/d/s/v/env"⟩

/-- A new service where the node that watchers of the service watch cannot be created. -/
def service : Service :=
  Service.fresh.plan ⟨.create, "/d/s/live/watch", .backend "down", 0⟩

/-- What becomes of making the pointer live. -/
def made : Except RegistryError Answer × Service :=
  service.run ((RegistryStep.setLive pointer).action .standard).run

theorem made_fails : made.1 = .error (.tree (.backend "down")) :=
  eq_of_treeError? (by decide +kernel)

theorem made_changes : made.2.tree ≠ service.tree := by decide +kernel

/-- Making the pointer live fails with an error of the tree, but the pointer is stored. -/
theorem pointer_left_behind :
    made.1 = .error (.tree (.backend "down")) ∧ ¬ service.tree.Has "/d/s/live" ∧
      made.2.tree.value? "/d/s/live" =
        some (Text.Utf8.encode "/d/s/v/container/i,/d/s/v/env") :=
  ⟨made_fails, by decide +kernel, by decide +kernel⟩

/-- The operation fails late. -/
theorem pointer_stored_late :
    FailsLate .standard service (.setLive pointer) (.tree (.backend "down")) made.2 := by
  have hrun : service.run ((RegistryStep.setLive pointer).action .standard).run =
      (.error (.tree (.backend "down")), made.2) := Prod.ext made_fails rfl
  have hwhole : ∀ applied failed source,
      RegistryError.tree (.backend "down") ≠ .partiallyApplied applied failed source :=
    fun _ _ _ h => nomatch h
  exact (unchanged_or_late .standard (.setLive pointer) hrun hwhole).resolve_left made_changes

end Unheard

end Coordination
