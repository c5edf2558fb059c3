import Coordination.Machine.Fleet

/-!
# Runs of one machine

What can happen to a machine, one step after another: moves, deadlines, timers that wake, and
what the receivers of its signals do. A step that is refused leaves the machine as it is. A
timer may wake at any time and for any generation, so that every order of calls and timers is
a run. A step is what happens while the machine is locked, with the offer that follows from
it; nothing is said of what other threads see in between.
-/

namespace Coordination

universe u

/-- What can happen to a machine. -/
inductive MachineStep (σ : Type u) where
  | next (state : σ) (message : String) (error : Option String)
  | setDeadline (record : Record σ) (time : Nat)
  | wake (generation : Nat)
  /-- The receiver of a signal takes what it holds. -/
  | take (signal : SignalName)
  /-- The receiver of a signal is dropped. -/
  | dropReceiver (signal : SignalName)
  deriving DecidableEq

namespace Machine

variable {σ : Type u}

/-- The machine with another signal in place of one of its own. -/
def mapSignal (name : SignalName) (f : Signal σ → Signal σ) (m : Machine σ) : Machine σ :=
  match name with
  | .completed => { m with completed := f m.completed }
  | .expired => { m with expired := f m.expired }

/-- The machine after a step. -/
def step (l : Lifecycle σ) (m : Machine σ) : MachineStep σ → Machine σ
  | .next state message error => (m.next l state message error).toOption.getD m
  | .setDeadline record time => (m.setDeadline record time).toOption.getD m
  | .wake generation => m.wake generation
  | .take name => m.mapSignal name fun s => s.take.2
  | .dropReceiver name => m.mapSignal name fun _ => .dropped

/-- The machine after a run. -/
def after (l : Lifecycle σ) (m : Machine σ) (steps : List (MachineStep σ)) : Machine σ :=
  steps.foldl (step l) m

theorem after_append (l : Lifecycle σ) (m : Machine σ) (steps steps' : List (MachineStep σ)) :
    m.after l (steps ++ steps') = (m.after l steps).after l steps' := List.foldl_append

theorem after_concat (l : Lifecycle σ) (m : Machine σ) (steps : List (MachineStep σ))
    (s : MachineStep σ) : m.after l (steps ++ [s]) = (m.after l steps).step l s :=
  after_append l m steps [s]

/-- What is observed of the steps of a run, in their order. -/
def observed {α : Type u} (observe : Machine σ → MachineStep σ → Option α) (l : Lifecycle σ) :
    Machine σ → List (MachineStep σ) → List α
  | _, [] => []
  | m, s :: steps => (observe m s).toList ++ observed observe l (m.step l s) steps

/-! ## Steps that succeed -/

/-- The deadline that a step sets: its generation, and the record that it is set on. -/
def armed? (m : Machine σ) : MachineStep σ → Option (Nat × Record σ)
  | .setDeadline record time =>
    (m.setDeadline record time).toOption.map fun m' => (m'.generation, m'.current)
  | _ => none

/-- Whether a step moves the machine to another state. -/
def moves (l : Lifecycle σ) (m : Machine σ) : MachineStep σ → Bool
  | .next state message error => (m.next l state message error).isOk
  | _ => false

section

variable {l : Lifecycle σ} {m : Machine σ}

theorem next_of_allowed {state : σ} (message : String) (error : Option String)
    (h : l.allows m.current.state state = true) :
    m.next l state message error = .ok { m with
      past := m.past ++ [m.current]
      current := ⟨m.id, m.past.length + 1, state, message, error, none⟩
      pending := none
      completed := m.completed.offer m.current } := if_pos h

theorem next_of_not_allowed {state : σ} (message : String) (error : Option String)
    (h : ¬ l.allows m.current.state state = true) :
    m.next l state message error = .error (.stateNotAllowed m.current.state state) := if_neg h

theorem setDeadline_of_current {record : Record σ} (time : Nat)
    (h : m.current.sameEntry record = true) :
    m.setDeadline record time = .ok { m with
      current := { m.current with deadline := some time }
      pending := some (m.generation + 1)
      generation := m.generation + 1 } := if_pos h

theorem setDeadline_of_not_current {record : Record σ} (time : Nat)
    (h : ¬ m.current.sameEntry record = true) :
    m.setDeadline record time = .error (.invalidState record.id m.current.id) := if_neg h

end

/-- What can happen to a machine in a step: it moves, it is given a deadline, a deadline that
pends lapses, or nothing but its signals changes. -/
inductive Passes (l : Lifecycle σ) (m : Machine σ) (s : MachineStep σ) : Prop where
  | moved (moves : m.moves l s = true) (armed : m.armed? s = none)
    (pending : (m.step l s).pending = none)
    (generation : (m.step l s).generation = m.generation)
  | armed (moves : m.moves l s = false)
    (armed : m.armed? s = some (m.generation + 1, (m.step l s).current))
    (pending : (m.step l s).pending = some (m.generation + 1))
    (generation : (m.step l s).generation = m.generation + 1)
  | lapsed (g : Nat) (wakes : s = .wake g) (pending : m.pending = some g)
    (result : m.step l s = { m with pending := none, expired := m.expired.offer m.current })
  | kept (moves : m.moves l s = false) (armed : m.armed? s = none)
    (wakes : ∀ g, s = .wake g → m.pending ≠ some g)
    (pending : (m.step l s).pending = m.pending)
    (current : (m.step l s).current = m.current)
    (generation : (m.step l s).generation = m.generation)

/-- A step that leaves the machine as it is. -/
theorem Passes.of_same {l : Lifecycle σ} {m : Machine σ} {s : MachineStep σ}
    (moves : m.moves l s = false) (armed : m.armed? s = none)
    (wakes : ∀ g, s = .wake g → m.pending ≠ some g) (hsame : m.step l s = m) : Passes l m s := by
  refine .kept moves armed wakes ?_ ?_ ?_
  · rw [hsame]
  · rw [hsame]
  · rw [hsame]

theorem passes_step (l : Lifecycle σ) (m : Machine σ) (s : MachineStep σ) : Passes l m s := by
  have hsignal (name : SignalName) (f : Signal σ → Signal σ) :
      (m.mapSignal name f).pending = m.pending ∧ (m.mapSignal name f).current = m.current ∧
        (m.mapSignal name f).generation = m.generation := by
    cases name with
    | completed => exact ⟨rfl, rfl, rfl⟩
    | expired => exact ⟨rfl, rfl, rfl⟩
  cases s with
  | next state message error =>
    by_cases hallowed : l.allows m.current.state state = true
    · have hnext := next_of_allowed message error hallowed
      refine .moved ?_ rfl ?_ ?_
      · rw [moves, hnext]
        rfl
      · rw [step, hnext]
        rfl
      · rw [step, hnext]
        rfl
    · have hnext := next_of_not_allowed message error hallowed
      refine .of_same ?_ rfl (fun g hwake => nomatch hwake) ?_
      · rw [moves, hnext]
        rfl
      · rw [step, hnext]
        rfl
  | setDeadline record time =>
    by_cases hcurrent : m.current.sameEntry record = true
    · have hset := setDeadline_of_current time hcurrent
      refine .armed rfl ?_ ?_ ?_
      · rw [armed?, step, hset]
        rfl
      · rw [step, hset]
        rfl
      · rw [step, hset]
        rfl
    · have hset := setDeadline_of_not_current time hcurrent
      refine .of_same rfl ?_ (fun g hwake => nomatch hwake) ?_
      · rw [armed?, hset]
        rfl
      · rw [step, hset]
        rfl
  | wake g =>
    by_cases hpending : m.pending = some g
    · exact .lapsed g rfl hpending (if_pos hpending)
    · refine .of_same rfl rfl (fun g' hwake => ?_) (if_neg hpending)
      cases hwake
      exact hpending
  | take name =>
    obtain ⟨hpending, hcurrent, hgeneration⟩ := hsignal name fun s => s.take.2
    exact .kept rfl rfl (fun g hwake => nomatch hwake) hpending hcurrent hgeneration
  | dropReceiver name =>
    obtain ⟨hpending, hcurrent, hgeneration⟩ := hsignal name fun _ => .dropped
    exact .kept rfl rfl (fun g hwake => nomatch hwake) hpending hcurrent hgeneration

end Machine

end Coordination
