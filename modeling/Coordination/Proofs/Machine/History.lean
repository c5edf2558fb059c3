import Coordination.Machine.Lifecycles
import Coordination.Proofs.Machine.Runs
import Mathlib.Data.List.Chain

/-!
# Histories

The history of a machine only grows. A move that succeeds appends one record, and every other
step leaves all records alone but the current one, of which at most the deadline changes. From
this it follows by induction on the run that records are numbered by their positions, that each
state was listed for the one before it, and that what is superseded stays as it is. Lifecycles
may know some of the states only, and nothing is asked of their sameness: it need not be
reflexive, symmetric or transitive.
-/

namespace Coordination

universe u

namespace Lifecycle

variable {σ : Type u}

/-- The lifecycle knows the state and lists a target that is the same as the other state. -/
def Leads (l : Lifecycle σ) (source target : σ) : Prop :=
  ∃ targets, l.targets source = some targets ∧ ∃ t ∈ targets, l.same t target = true

theorem allows_iff_leads {l : Lifecycle σ} {source target : σ} :
    l.allows source target = true ↔ l.Leads source target := by
  cases h : l.targets source with
  | none => simp [allows, Leads, h]
  | some targets => simp [allows, Leads, h]

end Lifecycle

/-- What the caller of a move says of its record: the state, the message and the error. -/
def Record.content {σ : Type u} (r : Record σ) : σ × String × Option String :=
  (r.state, r.message, r.error)

namespace Machine

variable {σ : Type u} {l : Lifecycle σ} {m : Machine σ}

/-- What the caller passes to a move that succeeds. -/
def passed? (l : Lifecycle σ) (m : Machine σ) :
    MachineStep σ → Option (σ × String × Option String)
  | .next state message error =>
    if m.moves l (.next state message error) then some (state, message, error) else none
  | _ => none

/-- What is passed to the moves of a run that succeed, in their order. -/
def passed (l : Lifecycle σ) : Machine σ → List (MachineStep σ) →
    List (σ × String × Option String) :=
  observed (passed? l) l

/-! ## One step -/

/-- What becomes of the records in a step: one more is appended, with what the caller passed,
or the current one is kept, apart from its deadline. -/
inductive Keeps (l : Lifecycle σ) (m : Machine σ) (s : MachineStep σ) : Prop where
  | appended (state : σ) (message : String) (error : Option String)
    (passed : m.passed? l s = some (state, message, error))
    (leads : l.Leads m.current.state state)
    (past : (m.step l s).past = m.past ++ [m.current])
    (current : (m.step l s).current =
      ⟨m.id, m.past.length + 1, state, message, error, none⟩)
  | kept (deadline : Option Nat) (passed : m.passed? l s = none)
    (past : (m.step l s).past = m.past)
    (current : (m.step l s).current = { m.current with deadline })

theorem keeps_step (l : Lifecycle σ) (m : Machine σ) (s : MachineStep σ) : Keeps l m s := by
  have hsignal (name : SignalName) (f : Signal σ → Signal σ) :
      (m.mapSignal name f).past = m.past ∧
        (m.mapSignal name f).current = { m.current with deadline := m.current.deadline } := by
    cases name <;> exact ⟨rfl, rfl⟩
  cases s with
  | next state message error =>
    by_cases hallowed : l.allows m.current.state state = true
    · have hnext := next_of_allowed message error hallowed
      have hpassed : m.passed? l (.next state message error) = some (state, message, error) := by
        simp [passed?, moves, hnext, Except.isOk, Except.toBool]
      refine .appended state message error hpassed (Lifecycle.allows_iff_leads.1 hallowed) ?_ ?_
      · simp [step, hnext, Except.toOption]
      · simp [step, hnext, Except.toOption]
    · have hnext := next_of_not_allowed message error hallowed
      have hpassed : m.passed? l (.next state message error) = none := by
        simp [passed?, moves, hnext, Except.isOk, Except.toBool]
      refine .kept m.current.deadline hpassed ?_ ?_
      · simp [step, hnext, Except.toOption]
      · simp [step, hnext, Except.toOption]
  | setDeadline record time =>
    by_cases hcurrent : m.current.sameEntry record = true
    · have hset := setDeadline_of_current time hcurrent
      refine .kept (some time) rfl ?_ ?_
      · simp [step, hset, Except.toOption]
      · simp [step, hset, Except.toOption]
    · have hset := setDeadline_of_not_current time hcurrent
      refine .kept m.current.deadline rfl ?_ ?_
      · simp [step, hset, Except.toOption]
      · simp [step, hset, Except.toOption]
  | wake g =>
    have hwake : (m.wake g).past = m.past ∧
        (m.wake g).current = { m.current with deadline := m.current.deadline } := by
      rw [wake]
      split <;> exact ⟨rfl, rfl⟩
    exact .kept m.current.deadline rfl hwake.1 hwake.2
  | take name => exact .kept m.current.deadline rfl (hsignal name _).1 (hsignal name _).2
  | dropReceiver name => exact .kept m.current.deadline rfl (hsignal name _).1 (hsignal name _).2

/-- Records are numbered by their positions. -/
def Numbered (m : Machine σ) : Prop := m.history.map Record.id = List.range m.history.length

/-- Every state was listed for the one before it. -/
def Legal (l : Lifecycle σ) (m : Machine σ) : Prop :=
  (m.history.map Record.state).IsChain l.Leads

theorem length_history (m : Machine σ) : m.history.length = m.past.length + 1 := by
  simp [history]

theorem getLast?_history (m : Machine σ) : m.history.getLast? = some m.current := by
  simp [history]

theorem dropLast_history (m : Machine σ) : m.history.dropLast = m.past := by
  simp [history]

/-- The current record is numbered by the records before it. -/
theorem Numbered.id_current (h : m.Numbered) : m.current.id = m.past.length := by
  have hlast : (m.history.map Record.id).getLast? = some m.current.id := by
    simp [history]
  rw [h, length_history, List.range_succ] at hlast
  simpa using hlast.symm

theorem content_step (l : Lifecycle σ) (m : Machine σ) (s : MachineStep σ) :
    (m.step l s).history.map Record.content =
      m.history.map Record.content ++ (m.passed? l s).toList := by
  cases m.keeps_step l s with
  | appended state message error passed leads past current =>
    simp [history, past, current, passed, Record.content]
  | kept deadline passed past current =>
    simp [history, past, current, passed, Record.content]

theorem Numbered.step (h : m.Numbered) (s : MachineStep σ) : (m.step l s).Numbered := by
  cases m.keeps_step l s with
  | appended state message error passed leads past current =>
    have hids : m.past.map Record.id ++ [m.current.id] = List.range (m.past.length + 1) := by
      simpa [Numbered, history] using h
    have hnext : List.range (m.past.length + 1 + 1) =
        List.range (m.past.length + 1) ++ [m.past.length + 1] := List.range_succ
    simp [Numbered, history, past, current, hnext, ← hids]
  | kept deadline passed past current => simpa [Numbered, history, past, current] using h

theorem Legal.step (h : m.Legal l) (s : MachineStep σ) : (m.step l s).Legal l := by
  cases m.keeps_step l s with
  | appended state message error passed leads past current =>
    have hchain : (m.past.map Record.state ++ [m.current.state]).IsChain l.Leads := by
      simpa [Legal, history] using h
    have hstates : (m.step l s).history.map Record.state =
        (m.past.map Record.state ++ [m.current.state]) ++ [state] := by
      simp [history, past, current]
    rw [Legal, hstates]
    refine List.isChain_append.2 ⟨hchain, List.isChain_singleton _, ?_⟩
    simpa using leads
  | kept deadline passed past current => simpa [Legal, history, past, current] using h

/-- What is superseded stays where it is. -/
theorem past_step (l : Lifecycle σ) (m : Machine σ) (s : MachineStep σ) :
    m.past <+: (m.step l s).past := by
  cases m.keeps_step l s with
  | appended state message error passed leads past current =>
    rw [past]
    exact List.prefix_append _ _
  | kept deadline passed past current => simp [past]

/-! ## Runs -/

theorem numbered_start (id : Nat) (initial : σ) : (start id initial).Numbered := rfl

theorem legal_start (l : Lifecycle σ) (id : Nat) (initial : σ) : (start id initial).Legal l :=
  List.isChain_singleton _

theorem Numbered.after (h : m.Numbered) (steps : List (MachineStep σ)) :
    (m.after l steps).Numbered := by
  induction steps generalizing m with
  | nil => exact h
  | cons s steps ih => exact ih (h.step s)

theorem Legal.after (h : m.Legal l) (steps : List (MachineStep σ)) :
    (m.after l steps).Legal l := by
  induction steps generalizing m with
  | nil => exact h
  | cons s steps ih => exact ih (h.step s)

theorem past_after (l : Lifecycle σ) (m : Machine σ) (steps : List (MachineStep σ)) :
    m.past <+: (m.after l steps).past := by
  induction steps generalizing m with
  | nil => exact List.prefix_refl _
  | cons s steps ih => exact (m.past_step l s).trans (ih (m.step l s))

theorem content_after (l : Lifecycle σ) (m : Machine σ) (steps : List (MachineStep σ)) :
    (m.after l steps).history.map Record.content =
      m.history.map Record.content ++ m.passed l steps := by
  induction steps generalizing m with
  | nil =>
    have hnone : m.passed l [] = [] := rfl
    rw [hnone, List.append_nil]
    rfl
  | cons s steps ih =>
    have hpassed : m.passed l (s :: steps) =
        (m.passed? l s).toList ++ (m.step l s).passed l steps := rfl
    rw [hpassed, ← List.append_assoc, ← content_step]
    exact ih (m.step l s)

/-- After every run of a new machine the records are numbered by their positions; the current
one is the last, and its number is that of the moves that succeeded; each state is listed for
the one before it; states, messages and errors are those that the callers of these moves
passed; and in all later runs the superseded records stay as they are and where they are. -/
theorem history_grows_by_moves (l : Lifecycle σ) (id : Nat) (initial : σ)
    (steps later : List (MachineStep σ)) :
    let first := start id initial
    let m := first.after l steps
    m.history.map Record.id = List.range m.history.length ∧
      m.history.getLast? = some m.current ∧
      m.current.id = (first.passed l steps).length ∧
      (m.history.map Record.state).IsChain l.Leads ∧
      m.history.map Record.content = (initial, "", none) :: first.passed l steps ∧
      m.history.dropLast <+: (m.after l later).history := by
  intro first m
  have hnumbered : m.Numbered := (numbered_start id initial).after steps
  have hcontent : m.history.map Record.content = (initial, "", none) :: first.passed l steps :=
    content_after l first steps
  have hlength : m.past.length = (first.passed l steps).length := by
    have hcount := congrArg List.length hcontent
    rw [List.length_map, length_history, List.length_cons] at hcount
    omega
  refine ⟨hnumbered, m.getLast?_history, hnumbered.id_current.trans hlength,
    (legal_start l id initial).after steps, hcontent, ?_⟩
  rw [dropLast_history]
  exact (past_after l m later).trans (List.prefix_append _ _)

/-- The state that was passed is stored, not the listed one that is the same but for the case;
from there nothing is listed. -/
example :
    let l := Lifecycle.ofTable true (OrderedMap.empty.insert "starting" ["RUNNING"])
    ((start 0 "Starting").after l
      [.next "Running" "up" none, .next "stopped" "" none]).history.map Record.content =
        [("Starting", "", none), ("Running", "up", none)] := by
  decide

end Machine

end Coordination
