/-!
# State machines with a history

A machine has a current record and the records before it. A move to another state must be
allowed by the lifecycle; it ends the current record, which is then offered on the signal
of completed records. A deadline may be set on the current record; if it lapses before the
next move, the record is offered on the signal of expired records, and nothing else
happens. A signal holds one record at most, and an offer to a full one is lost.

Deadlines carry generations: only a timer of the generation that is pending has an effect,
so a timer that wakes too late does nothing.

Times of day are left out. A record has no time at which its state began, though starting,
moving and setting a deadline would each set one to the present: nothing here reads it. A
deadline is kept as the time it gives from its setting on, not as the moment at which it ends;
that moment is kept by what has a clock.
-/

namespace Coordination

universe u

/-- Which moves between states are allowed. Which states are the same is part of it. -/
structure Lifecycle (σ : Type u) where
  /-- The targets of the moves from a state, if the state is known. -/
  targets : σ → Option (List σ)
  same : σ → σ → Bool

namespace Lifecycle

variable {σ : Type u}

/-- Whether a move is allowed. Nothing is allowed from an unknown state. -/
def allows (l : Lifecycle σ) (source target : σ) : Bool :=
  match l.targets source with
  | some targets => targets.any fun t => l.same t target
  | none => false

end Lifecycle

/-- One entry of the history of a machine. -/
structure Record (σ : Type u) where
  /-- The machine that made the record. -/
  machine : Nat
  /-- The position in the history, from zero on. -/
  id : Nat
  state : σ
  message : String
  error : Option String
  /-- The time given for leaving the state from the setting of the deadline on, if one was
  set. -/
  deadline : Option Nat
  deriving DecidableEq, Repr, Inhabited

namespace Record

variable {σ : Type u}

/-- Whether two records are the same entry of one history. -/
def sameEntry (r s : Record σ) : Bool := r.machine = s.machine && r.id = s.id

end Record

/-- A signal that holds one record at most, until its receiver is dropped. -/
inductive Signal (σ : Type u) where
  | holding (slot : Option (Record σ))
  | dropped
  deriving DecidableEq, Repr

namespace Signal

variable {σ : Type u}

instance : Inhabited (Signal σ) := ⟨.holding none⟩

/-- Put a record into the signal if there is room. -/
def offer (r : Record σ) : Signal σ → Signal σ
  | .holding none => .holding (some r)
  | s => s

/-- Take what the signal holds. -/
def take : Signal σ → Option (Record σ) × Signal σ
  | .holding slot => (slot, .holding none)
  | .dropped => (none, .dropped)

end Signal

/-- Why a machine refuses a move or a deadline. -/
inductive MachineError (σ : Type u) where
  | stateNotAllowed (source target : σ)
  | invalidState (record current : Nat)
  deriving DecidableEq, Repr

namespace MachineError

variable {σ : Type u}

/-- The wording of the error, for states that are written by `label`. -/
def message (label : σ → String) : MachineError σ → String
  | .stateNotAllowed source target =>
    s!"transition from {label source} to {label target} is not allowed"
  | .invalidState record current =>
    s!"record {record} is not the current record (current is {current})"

end MachineError

/-- A machine. -/
structure Machine (σ : Type u) where
  id : Nat
  /-- The records before the current one, oldest first. -/
  past : List (Record σ)
  current : Record σ
  /-- The generation of the deadline that is pending, if one is. -/
  pending : Option Nat
  /-- The number of deadlines set so far. -/
  generation : Nat
  completed : Signal σ
  expired : Signal σ
  deriving DecidableEq, Repr

namespace Machine

variable {σ : Type u}

/-- A machine in its initial state. -/
def start (id : Nat) (initial : σ) : Machine σ where
  id
  past := []
  current := ⟨id, 0, initial, "", none, none⟩
  pending := none
  generation := 0
  completed := .holding none
  expired := .holding none

/-- All records, oldest first. -/
def history (m : Machine σ) : List (Record σ) := m.past ++ [m.current]

/-- Move to a state. The outgoing record is complete, and its deadline no longer pends. -/
def next (l : Lifecycle σ) (state : σ) (message : String) (error : Option String)
    (m : Machine σ) : Except (MachineError σ) (Machine σ) :=
  if l.allows m.current.state state then
    .ok { m with
      past := m.past ++ [m.current]
      current := ⟨m.id, m.past.length + 1, state, message, error, none⟩
      pending := none
      completed := m.completed.offer m.current }
  else .error (.stateNotAllowed m.current.state state)

/-- Set a deadline on a record, which must be the current one, in place of an earlier
deadline. -/
def setDeadline (record : Record σ) (time : Nat) (m : Machine σ) :
    Except (MachineError σ) (Machine σ) :=
  if m.current.sameEntry record then
    .ok { m with
      current := { m.current with deadline := some time }
      pending := some (m.generation + 1)
      generation := m.generation + 1 }
  else .error (.invalidState record.id m.current.id)

/-- The timer of a generation wakes. If its deadline is still pending, it has lapsed. -/
def wake (generation : Nat) (m : Machine σ) : Machine σ :=
  if m.pending = some generation then
    { m with pending := none, expired := m.expired.offer m.current }
  else m

end Machine

end Coordination
