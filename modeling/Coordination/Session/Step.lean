import Coordination.Session.Basic

/-!
# Steps of a session

What can be done in a session and what it answers. A step acts first; then all watches hear
of the events that it caused.
-/

namespace Coordination

/-- How a recording watch is told to stop. -/
inductive StopSignal where
  /-- Stop. -/
  | stop
  /-- Go on. -/
  | goOn
  /-- Nobody will ever tell it to stop, which ends it too. -/
  | drop
  deriving DecidableEq, Repr, Inhabited

/-- Operations of the registry, with their arguments. -/
inductive RegistryStep where
  | readEnv (id : ReleaseId)
  | newEnv (id : ReleaseId) (vars : Env)
  | saveEnv (id : ReleaseId) (change : EnvChange) (revision : Nat)
  | listConf (kind : ConfKind) (scope : Scope)
  | getConf (kind : ConfKind) (scope : Scope) (name : String)
  | newConf (kind : ConfKind) (scope : Scope) (objects : OrderedMap Bytes)
  | saveConf (kind : ConfKind) (scope : Scope) (change : ConfChange) (revision : Nat)
  | deleteConf (kind : ConfKind) (scope : Scope) (name : String) (revision : Nat)
  | setRelease (r : Release)
  | getRelease (id : ReleaseId)
  | touchRelease (id : ReleaseId)
  | setImageCount (r : Release) (count : UInt32)
  | getImageCount (r : Release)
  | registerContainer (c : Container)
  | unregisterContainer (c : Container)
  | listContainers (r : Release)
  | livePointer (r : Release)
  | setLive (p : LivePointer)
  | getLive (domain service : String)
  | registerDashboard (d : Dashboard)
  deriving DecidableEq

/-- Operations on the coordinator. -/
inductive ReloadStep where
  | watch (rule : ReloadRule)
  | unwatch (key : String)
  | update (key : String) (rule : ReloadRule)
  | now (key : String)
  | keys
  | isWatching (key : String)
  | rule (key : String)
  | shutdown
  deriving DecidableEq

/-- A step of a session. -/
inductive Step where
  | call (c : Call)
  | size
  | dump
  | refuseWrites (start : String)
  | allowWrites
  | disconnect
  | fault (f : Fault)
  | watch (name path : String) (keep : Option Nat)
  | events (name : String)
  | stop (name : String) (signal : StopSignal)
  | active
  | registry (r : RegistryStep)
  | reload (r : ReloadStep)
  | handled
  | poke (path : String) (kind : EventKind)
  | dropCoordinator

/-- What a step answers. -/
inductive Answer where
  | done
  | flag (b : Bool)
  | number (n : Nat)
  | size (n : Nat) (isEmpty : Bool)
  | node (n : Node)
  | nodes (ns : List Node)
  | dump (ns : List Node)
  | events (es : List Event)
  | env (env : Env) (revision : Nat)
  | summary (s : ChangeSummary)
  | names (names : List String) (revision : Nat)
  | object (o : ConfObject)
  | release (r : Release)
  | containers (cs : List Container)
  | pointer (p : Option LivePointer)
  | keys (keys : List String)
  | rule (r : Option ReloadRule)
  | outcome (o : ReloadOutcome)
  | handled (log : OrderedMap (List (Event × Bool)))
  | noSuchWatch
  | noSuchHandler
  | noCoordinator
  | treeError (e : TreeError)
  | registryError (e : RegistryError)
  | reloadError (e : ReloadError)

namespace Answer

/-- The revision that an answer gives: the number that it is, or the revision in it. -/
def revision : Answer → Nat
  | .number n => n
  | .env _ revision => revision
  | .names _ revision => revision
  | .object o => o.revision
  | _ => 0

/-- The answer to a call on the tree. -/
def ofReply : (c : Call) → Except TreeError c.Reply → Answer
  | _, .error e => .treeError e
  | .get _, .ok n => .node n
  | .create .., .ok n => .node n
  | .set .., .ok n => .node n
  | .delete _, .ok () => .done
  | .visit .., .ok ns => .nodes ns

end Answer

namespace RegistryStep

/-- The program of an operation. -/
def action (r : Registry) : RegistryStep → Action Answer
  | .readEnv id => do
    let (env, revision) ← r.getEnv id
    pure (.env env revision)
  | .newEnv id vars => do
    let revision ← r.newEnv id vars
    pure (.number revision)
  | .saveEnv id change revision => do
    let summary ← r.saveEnv id change revision
    pure (.summary summary)
  | .listConf kind scope => do
    let (names, revision) ← r.listConf kind scope
    pure (.names names revision)
  | .getConf kind scope name => do
    let object ← r.getConf kind scope name
    pure (.object object)
  | .newConf kind scope objects => do
    let revision ← r.newConf kind scope objects
    pure (.number revision)
  | .saveConf kind scope change revision => do
    let summary ← r.saveConf kind scope change revision
    pure (.summary summary)
  | .deleteConf kind scope name revision => do
    let revision ← r.deleteConf kind scope name revision
    pure (.number revision)
  | .setRelease release => do
    r.setRelease release
    pure .done
  | .getRelease id => do
    let release ← r.getRelease id
    pure (.release release)
  | .touchRelease id => do
    r.touchRelease id
    pure .done
  | .setImageCount release count => do
    r.setImageCount release count
    pure .done
  | .getImageCount release => do
    let count ← r.getImageCount release
    pure (.number count)
  | .registerContainer c => do
    r.registerContainer c
    pure .done
  | .unregisterContainer c => do
    r.unregisterContainer c
    pure .done
  | .listContainers release => do
    let containers ← r.listContainers release
    pure (.containers containers)
  | .livePointer release => do
    let pointer ← r.livePointer release
    pure (.pointer (some pointer))
  | .setLive pointer => do
    r.setLive pointer
    pure .done
  | .getLive domain service => do
    let pointer ← r.getLive domain service
    pure (.pointer pointer)
  | .registerDashboard d => do
    r.registerDashboard d
    pure .done

end RegistryStep

namespace Session

/-- Change the service. -/
def modifyService (f : Service → Service) (s : Session) : Session :=
  { s with work := { s.work with service := f s.work.service } }

/-- Make a call on the tree. -/
def call (c : Call) (s : Session) : Answer × Session :=
  let (reply, service) := s.work.service.answer c
  (.ofReply c reply, { s with work := { s.work with service } })

/-- All nodes, the root first and every node before those below it. -/
def allNodes (t : Tree) : List Node :=
  (t.node? Path.root).toList ++ t.nodesBelow (fun _ => true) Path.root

/-- Run an operation of the registry. -/
def runRegistry (r : RegistryStep) (s : Session) : Answer × Session :=
  let (result, service) := s.work.service.run (r.action s.registry).run
  let s := { s with work := { s.work with service } }
  match result with
  | .ok answer => (answer, s)
  | .error e => (.registryError e, s)

/-- Run an operation on the coordinator. -/
def runReload (r : ReloadStep) (c : Coordinator) (s : Session) : Answer × Session :=
  match r with
  | .watch rule =>
    match s.watchRule rule c with
    | (.ok (), s) => (.done, s)
    | (.error e, s) => (.reloadError e, s)
  | .unwatch key =>
    let (was, s) := s.unwatchRule key c
    (.flag was, s)
  | .update key rule =>
    let (was, s) := s.updateRule key rule c
    (.flag was, s)
  | .now key =>
    match s.reloadNow key c with
    | (.ok outcome, s) => (.outcome outcome, s)
    | (.error e, s) => (.reloadError e, s)
  | .keys => (.keys c.rules.keys, s)
  | .isWatching key => (.flag (c.rules.contains key), s)
  | .rule key => (.rule (c.rules.get? key), s)
  | .shutdown => (.done, { s.releaseCoordinator with coordinator := some ⟨.empty⟩ })

/-- Tell a recording watch to stop or to go on, and say whether it was alive. -/
def stopRecorder (name : String) (signal : StopSignal) (s : Session) : Answer × Session :=
  match s.recorders.get? name with
  | none => (.noSuchWatch, s)
  | some r =>
    if r.stoppable then
      let alive := s.hears (.recorder name)
      match signal with
      | .stop => (.flag alive, s.release (.recorder name))
      | .goOn => (.flag alive, s)
      | .drop =>
        let s := s.release (.recorder name)
        (.done, { s with
          recorders := s.recorders.insert name { r with stoppable := false } })
    else (.noSuchWatch, s)

/-- Take what a recording watch recorded. -/
def takeEvents (name : String) (s : Session) : Answer × Session :=
  match s.recorders.get? name with
  | none => (.noSuchWatch, s)
  | some r =>
    (.events r.recorded,
      { s with recorders := s.recorders.insert name { r with recorded := [] } })

/-- Do a step, before watches hear of it. -/
def act (step : Step) (s : Session) : Answer × Session :=
  match step with
  | .call c => s.call c
  | .size => (.size s.work.service.tree.size s.work.service.tree.isEmpty, s)
  | .dump => (.dump (allNodes s.work.service.tree), s)
  | .refuseWrites start => (.done, s.modifyService fun v => v.modifyTree (·.lock start))
  | .allowWrites => (.done, s.modifyService fun v => v.modifyTree Tree.unlock)
  | .disconnect => (.done, s.modifyService Service.disconnect)
  | .fault f => (.done, s.modifyService (Service.plan f))
  | .watch name path keep =>
    match s.watch name path keep with
    | (.ok (), s) => (.done, s)
    | (.error e, s) => (.treeError e, s)
  | .events name => s.takeEvents name
  | .stop name signal => s.stopRecorder name signal
  | .active => (.number s.watches.length, s)
  | .registry r => s.runRegistry r
  | .reload r =>
    match s.coordinator with
    | none => (.noCoordinator, s)
    | some c => s.runReload r c
  | .handled => (.handled s.handled, { s with handled := .empty })
  | .poke path kind =>
    if s.handlers.contains path then
      let (keep, s) := s.react path ⟨kind, path⟩
      (.flag keep, s)
    else (.noSuchHandler, s)
  | .dropCoordinator => (.done, { s.releaseCoordinator with coordinator := none })

/-- Do a step. -/
def step (step : Step) (s : Session) : Answer × Session :=
  let (answer, s) := s.act step
  (answer, s.settle)

end Session

end Coordination
