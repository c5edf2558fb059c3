import Coordination.Data.Record
import Coordination.Machine.Basic

/-!
# Lifecycles

The lifecycle of a container, and lifecycles given as tables. In a table a state is looked
up by the lifecycle's own notion of sameness, and the first name in order counts.
-/

namespace Coordination

/-- The states of a container. -/
inductive ContainerState where
  | starting
  | running
  | stopping
  | stopped
  | failed
  | removed
  deriving DecidableEq, Repr, Inhabited

namespace ContainerState

/-- The name of a state. -/
def label : ContainerState → String
  | .starting => "starting"
  | .running => "running"
  | .stopping => "stopping"
  | .stopped => "stopped"
  | .failed => "failed"
  | .removed => "removed"

/-- The states in the order of a container's life. -/
def all : List ContainerState := [.starting, .running, .stopping, .stopped, .failed, .removed]

/-- The state of a name. -/
def ofLabel? (s : String) : Option ContainerState := all.find? fun state => state.label = s

/-- How a state is read from a document. -/
def read (dialect : Dialect) : Data → Except ReadError ContainerState :=
  Data.readVariant dialect (all.map fun state => (state.label, state))

/-- The states that may follow. -/
def targets : ContainerState → List ContainerState
  | .starting => [.running, .stopping, .failed]
  | .running => [.stopping, .failed]
  | .stopping => [.stopped, .failed]
  | .stopped => [.starting, .removed]
  | .failed => [.starting, .removed]
  | .removed => []

/-- The lifecycle of a container. -/
def lifecycle : Lifecycle ContainerState where
  targets state := some state.targets
  same a b := a = b

end ContainerState

namespace Lifecycle

/-- Whether two texts are equal but for the case of ASCII letters. -/
def sameCaseless (s t : String) : Bool := s.toList.map Char.toLower = t.toList.map Char.toLower

/-- The lifecycle of a table of states and their targets. -/
def ofTable (ignoreCase : Bool) (table : OrderedMap (List String)) : Lifecycle String :=
  let same : String → String → Bool := if ignoreCase then sameCaseless else fun s t => s = t
  { targets := fun state => (table.toList.find? fun p => same p.1 state).map (·.2)
    same }

end Lifecycle

end Coordination
