import Coordination.Registry.Releases
import Coordination.Reload.Cycle

/-!
# Sessions

A session is a service with the watches on it, a registry, a working directory, and a
coordinator that runs reload cycles. Watches hear of events in the order in which they
happened, once each, after the step that caused them. A watch has room for a fixed number
of events, so of a step that causes more it only hears of the last ones. It ends when its
handler says so or when it is stopped, and then hears of nothing.

A coordinator watches at most one path for each of its rules, namely the one under which
the rule is kept.
-/

namespace Coordination

/-- Who hears of the events of a watch. -/
inductive Listener where
  /-- A recorder, by its name. -/
  | recorder (name : String)
  /-- The coordinator, with the key of a rule. -/
  | coordinator (key : String)
  deriving DecidableEq, Repr, Inhabited

/-- A watch that is alive. -/
structure Watch where
  path : String
  listener : Listener
  deriving DecidableEq, Repr, Inhabited

/-- What a watch recorded since it was last asked. -/
structure Recorder where
  recorded : List Event
  /-- The number of recorded events that ends the watch. -/
  keep : Option Nat
  /-- Whether the watch can still be told to stop. -/
  stoppable : Bool
  deriving DecidableEq, Repr, Inhabited

/-- The coordinator: the rules by the keys that they are watched under. -/
structure Coordinator where
  rules : OrderedMap ReloadRule
  deriving DecidableEq

/-- What a session keeps from step to step. -/
structure Session where
  registry : Registry
  work : Workspace
  /-- The watches that are alive, in the order of their installation. -/
  watches : List Watch
  recorders : OrderedMap Recorder
  /-- The coordinator, unless it was dropped. -/
  coordinator : Option Coordinator
  /-- The paths on which the coordinator ever installed a handler. -/
  handlers : OrderedMap Unit
  /-- What the coordinator's handlers heard and answered since that was last asked. -/
  handled : OrderedMap (List (Event × Bool))

namespace Session

/-- The number of events that a watch has room for. -/
def eventRoom : Nat := 256

/-- A new session. -/
def start (templates : TemplateSet) (files : Files) : Session where
  registry := ⟨templates⟩
  work := ⟨.fresh, files⟩
  watches := []
  recorders := .empty
  coordinator := some ⟨.empty⟩
  handlers := .empty
  handled := .empty

/-- End the watches of a listener. -/
def release (l : Listener) (s : Session) : Session :=
  { s with watches := s.watches.filter (·.listener ≠ l) }

/-- Whether a listener has a watch that is alive. -/
def hears (l : Listener) (s : Session) : Bool := s.watches.any (·.listener = l)

/-- Add a watch. -/
def install (w : Watch) (s : Session) : Session := { s with watches := s.watches ++ [w] }

/-! ## Reload cycles -/

/-- Run the cycle of a rule. -/
def reloadNow (key : String) (c : Coordinator) (s : Session) :
    Except ReloadError ReloadOutcome × Session :=
  match c.rules.get? key with
  | none => (.error (.noRule key), s)
  | some rule =>
    let (result, work) := rule.cycle s.registry s.work
    (result, { s with work })

/-- What the coordinator does at an event, and whether its watch goes on. A lost connection
is no reason to reload, and a failed cycle is no reason to end the watch. -/
def react (key : String) (e : Event) (s : Session) : Bool × Session :=
  match s.coordinator with
  | none => (false, s)
  | some c => if e.kind = .disconnected then (true, s) else (true, (s.reloadNow key c).2)

/-! ## Delivery -/

/-- Add what a handler of the coordinator heard and answered to the log. -/
def logHandled (key : String) (e : Event) (keep : Bool) (s : Session) : Session :=
  { s with handled := s.handled.insert key ((s.handled.get? key).getD [] ++ [(e, keep)]) }

/-- Hand an event to a listener, and say whether its watch goes on. -/
def hear (l : Listener) (e : Event) (s : Session) : Bool × Session :=
  match l with
  | .recorder name =>
    match s.recorders.get? name with
    | none => (false, s)
    | some r =>
      let recorded := r.recorded ++ [e]
      let goesOn := match r.keep with
        | some n => decide (recorded.length < n)
        | none => true
      (goesOn, { s with recorders := s.recorders.insert name { r with recorded } })
  | .coordinator key =>
    let (keep, s) := s.react key e
    (keep, s.logHandled key e keep)

/-- Hand events to a watch until it ends. -/
def deliverTo (w : Watch) : List Event → Session → Session
  | [], s => s
  | e :: rest, s =>
    if e.concerns w.path then
      match s.hear w.listener e with
      | (true, s) => deliverTo w rest s
      | (false, s) => s.release w.listener
    else deliverTo w rest s

/-- The events that there is room for. -/
def recent (events : List Event) : List Event := events.drop (events.length - eventRoom)

/-- Hand the events of a step to all watches. -/
def settle (s : Session) : Session :=
  let events := recent s.work.service.events
  let s := { s with work := { s.work with service := { s.work.service with events := [] } } }
  s.watches.foldl (fun s w => deliverTo w events s) s

/-! ## Watches -/

/-- Install a watch that records events, in place of one of the same name. -/
def watch (name path : String) (keep : Option Nat) (s : Session) :
    Except TreeError Unit × Session :=
  match Tree.checkPath path with
  | .error e => (.error e, s)
  | .ok () =>
    let s := (s.release (.recorder name)).install ⟨path, .recorder name⟩
    (.ok (), { s with recorders := s.recorders.insert name ⟨[], keep, true⟩ })

/-- Install the watch of a rule, in place of the one under the same key. If that fails, the
key is not watched any more. -/
def watchRule (rule : ReloadRule) (c : Coordinator) (s : Session) :
    Except ReloadError Unit × Session :=
  let key := rule.watch
  let s := s.release (.coordinator key)
  match s.work.service.acceptWatch key with
  | (.error e, service) =>
    (.error (.watch key e),
      { s with coordinator := some ⟨c.rules.erase key⟩, work := { s.work with service } })
  | (.ok (), service) =>
    let s := s.install ⟨key, .coordinator key⟩
    (.ok (), { s with
      coordinator := some ⟨c.rules.insert key rule⟩
      handlers := s.handlers.insert key ()
      work := { s.work with service } })

/-- Stop watching for a rule, and say whether it was watched for. -/
def unwatchRule (key : String) (c : Coordinator) (s : Session) : Bool × Session :=
  (c.rules.contains key,
    { s.release (.coordinator key) with coordinator := some ⟨c.rules.erase key⟩ })

/-- Put a rule in place of the one under a key, and say whether there was one. -/
def updateRule (key : String) (rule : ReloadRule) (c : Coordinator) (s : Session) :
    Bool × Session :=
  if c.rules.contains key then
    (true, { s with coordinator := some ⟨c.rules.insert key rule⟩ })
  else (false, s)

/-- End all watches of the coordinator. -/
def releaseCoordinator (s : Session) : Session :=
  { s with watches := s.watches.filter fun w =>
      match w.listener with
      | .recorder _ => true
      | .coordinator _ => false }

end Session

end Coordination
