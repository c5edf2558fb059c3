import Coordination.Machine.Basic
import Coordination.OrderedMap

/-!
# Fleets of machines

Several machines under one clock. The clock moves only when told to; after every step the
deadlines that are due have lapsed, those of a time of zero already at the end of the step
that sets them. Records may be kept under names that all machines share. A machine that is
dropped answers no more, but what its signals hold can still be taken.
-/

namespace Coordination

universe u

/-- A machine of a fleet, and when its pending deadline is due. -/
structure Member (σ : Type u) where
  machine : Machine σ
  dueAt : Nat
  /-- Whether the machine was dropped. -/
  gone : Bool
  deriving DecidableEq, Repr

/-- Machines under one clock, and the records kept by name. -/
structure Fleet (σ : Type u) where
  members : List (Member σ)
  now : Nat
  kept : OrderedMap (Record σ)

/-- One of the two signals of a machine. -/
inductive SignalName where
  | completed
  | expired
  deriving DecidableEq, Repr, Inhabited

/-- What can be done with a fleet. The first argument is the position of a machine. -/
inductive FleetStep (σ : Type u) where
  | next (m : Nat) (state : σ) (message : String) (error : Option String)
  | current (m : Nat)
  | history (m : Nat)
  | keep (m : Nat) (name : String)
  /-- Set a deadline on a kept record, or on the current one. -/
  | deadline (m : Nat) (time : Nat) (on : Option String)
  | sleep (time : Nat)
  | take (m : Nat) (signal : SignalName)
  | dropSignal (m : Nat) (signal : SignalName)
  | drop (m : Nat)
  deriving Repr

/-- What a step answers. -/
inductive FleetAnswer (σ : Type u) where
  | done
  | record (r : Record σ)
  | records (rs : List (Record σ))
  | refused (e : MachineError σ)
  /-- The signal holds nothing. -/
  | empty
  /-- The signal holds nothing and its machine was dropped. -/
  | closed
  /-- The machine or the receiver of the signal was dropped. -/
  | dropped
  deriving DecidableEq, Repr

namespace Member

variable {σ : Type u}

/-- A signal of the machine. -/
def signal (m : Member σ) : SignalName → Signal σ
  | .completed => m.machine.completed
  | .expired => m.machine.expired

/-- Put a signal in place. -/
def setSignal (m : Member σ) (name : SignalName) (s : Signal σ) : Member σ :=
  match name with
  | .completed => { m with machine := { m.machine with completed := s } }
  | .expired => { m with machine := { m.machine with expired := s } }

/-- Let the pending deadline lapse if it is due. A dropped machine has no deadline. -/
def settle (now : Nat) (m : Member σ) : Member σ :=
  match m.machine.pending with
  | some generation =>
    if m.dueAt ≤ now ∧ !m.gone then { m with machine := m.machine.wake generation } else m
  | none => m

end Member

namespace Fleet

variable {σ : Type u}

/-- Machines in their initial states. -/
def start (initials : List σ) : Fleet σ where
  members := initials.mapIdx fun i state => ⟨.start i state, 0, false⟩
  now := 0
  kept := .empty

/-- Put a member in place of the one at its position. -/
def setMember (f : Fleet σ) (i : Nat) (m : Member σ) : Fleet σ :=
  { f with members := f.members.set i m }

/-- What a machine does in a step, if it was not dropped. -/
def withMember (f : Fleet σ) (i : Nat) (act : Member σ → FleetAnswer σ × Fleet σ) :
    FleetAnswer σ × Fleet σ :=
  match f.members[i]? with
  | some m => if m.gone then (.dropped, f) else act m
  | none => (.dropped, f)

/-- Take from a signal. -/
def take (f : Fleet σ) (i : Nat) (name : SignalName) : FleetAnswer σ × Fleet σ :=
  match f.members[i]? with
  | none => (.dropped, f)
  | some m =>
    match m.signal name with
    | .dropped => (.dropped, f)
    | signal =>
      let (slot, signal) := signal.take
      let f := f.setMember i (m.setSignal name signal)
      match slot with
      | some r => (.record r, f)
      | none => (if m.gone then .closed else .empty, f)

/-- Do a step, before deadlines lapse. -/
def act (l : Lifecycle σ) (f : Fleet σ) : FleetStep σ → FleetAnswer σ × Fleet σ
  | .next i state message error => f.withMember i fun m =>
    match m.machine.next l state message error with
    | .ok machine => (.record machine.current, f.setMember i { m with machine })
    | .error e => (.refused e, f)
  | .current i => f.withMember i fun m => (.record m.machine.current, f)
  | .history i => f.withMember i fun m => (.records m.machine.history, f)
  | .keep i name => f.withMember i fun m =>
    (.done, { f with kept := f.kept.insert name m.machine.current })
  | .deadline i time on => f.withMember i fun m =>
    let record := (on.bind f.kept.get?).getD m.machine.current
    match m.machine.setDeadline record time with
    | .ok machine =>
      (.record machine.current, f.setMember i { m with machine, dueAt := f.now + time })
    | .error e => (.refused e, f)
  | .sleep time => (.done, { f with now := f.now + time })
  | .take i name => f.take i name
  | .dropSignal i name =>
    match f.members[i]? with
    | some m => (.done, f.setMember i (m.setSignal name .dropped))
    | none => (.done, f)
  | .drop i =>
    match f.members[i]? with
    | some m => (.done, f.setMember i { m with gone := true })
    | none => (.done, f)

/-- Let every deadline lapse that is due. -/
def settle (f : Fleet σ) : Fleet σ := { f with members := f.members.map (Member.settle f.now) }

/-- Do a step. -/
def step (l : Lifecycle σ) (s : FleetStep σ) (f : Fleet σ) : FleetAnswer σ × Fleet σ :=
  let (answer, f) := f.act l s
  (answer, f.settle)

end Fleet

end Coordination
