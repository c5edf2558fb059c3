import Coordination.Machine.Lifecycles
import Coordination.Proofs.Machine.History

/-!
# What the signals of a machine deliver

A signal has room for one record. What a run puts into it is what its receiver takes, in the
same order, and then what is lost when the receiver is dropped or still waits at the end; so
nothing is handed out twice. A move puts the record that it ends into the signal of completed
records exactly if the signal is empty and has a receiver; all other completed records are lost
on it. Two runs that differ only in what the receivers do have the same history and the same
answers.

A step is a call together with the offer that follows from it. Nothing is said of offers that
overtake one another where calls run on several threads.
-/

namespace Coordination

universe u

variable {σ : Type u}

namespace Signal

/-- What the signal holds. -/
def held : Signal σ → Option (Record σ)
  | .holding slot => slot
  | .dropped => none

end Signal

/-- Whether the step is one of a receiver. -/
def MachineStep.isReceipt : MachineStep σ → Bool
  | .take _ | .dropReceiver _ => true
  | _ => false

/-- How far the current record is ahead of an offered one after the offer: a completed record
is superseded, an expired one is not. -/
def SignalName.lead : SignalName → Nat
  | .completed => 1
  | .expired => 0

namespace Machine

/-- A signal of the machine. -/
def signal (m : Machine σ) : SignalName → Signal σ
  | .completed => m.completed
  | .expired => m.expired

/-- What a step puts into a signal: what the signal holds afterwards and did not before. -/
def put? (l : Lifecycle σ) (name : SignalName) (m : Machine σ) (s : MachineStep σ) :
    Option (Record σ) :=
  match (m.signal name).held with
  | none => ((m.step l s).signal name).held
  | some _ => none

/-- What the receiver of a signal takes in a step. -/
def taken? (name : SignalName) (m : Machine σ) : MachineStep σ → Option (Record σ)
  | .take name' => if name' = name then (m.signal name).take.1 else none
  | _ => none

/-- What is lost in a step, because the receiver of the signal that holds it is dropped. -/
def lost? (name : SignalName) (m : Machine σ) : MachineStep σ → Option (Record σ)
  | .dropReceiver name' => if name' = name then (m.signal name).held else none
  | _ => none

/-- What a call answers: the record that it makes or changes, or why it is refused. -/
def answer? (l : Lifecycle σ) (m : Machine σ) :
    MachineStep σ → Option (Except (MachineError σ) (Record σ))
  | .next state message error => some ((m.next l state message error).map current)
  | .setDeadline record time => some ((m.setDeadline record time).map current)
  | _ => none

/-- What a run puts into a signal, in this order. -/
def puts (l : Lifecycle σ) (name : SignalName) :
    Machine σ → List (MachineStep σ) → List (Record σ) :=
  observed (put? l name) l

/-- What the receiver of a signal takes in a run, in this order. -/
def takings (l : Lifecycle σ) (name : SignalName) :
    Machine σ → List (MachineStep σ) → List (Record σ) :=
  observed (taken? name) l

/-- What a signal loses in a run with its receiver. -/
def losses (l : Lifecycle σ) (name : SignalName) :
    Machine σ → List (MachineStep σ) → List (Record σ) :=
  observed (lost? name) l

/-- What the calls of a run answer, in their order. -/
def answers (l : Lifecycle σ) :
    Machine σ → List (MachineStep σ) → List (Except (MachineError σ) (Record σ)) :=
  observed (answer? l) l

section

variable (l : Lifecycle σ) (name : SignalName) (m : Machine σ) (s : MachineStep σ)
  (steps : List (MachineStep σ))

theorem puts_cons : m.puts l name (s :: steps) =
    (m.put? l name s).toList ++ (m.step l s).puts l name steps := rfl

theorem takings_cons : m.takings l name (s :: steps) =
    (m.taken? name s).toList ++ (m.step l s).takings l name steps := rfl

theorem losses_cons : m.losses l name (s :: steps) =
    (m.lost? name s).toList ++ (m.step l s).losses l name steps := rfl

theorem answers_cons : m.answers l (s :: steps) =
    (m.answer? l s).toList ++ (m.step l s).answers l steps := rfl

end

variable {l : Lifecycle σ} {m : Machine σ} {name : SignalName} {s : MachineStep σ}

/-! ## One step -/

/-- Whether the current record is offered on a signal in a step: a move completes it, and a
timer whose deadline pends lets it expire. -/
def offers (l : Lifecycle σ) (m : Machine σ) : SignalName → MachineStep σ → Bool
  | .completed, s => m.moves l s
  | .expired, .wake g => m.pending = some g
  | .expired, _ => false

/-- What becomes of a signal in a step: the current record is offered on it, its receiver
takes what it holds or is dropped, or nothing. -/
inductive Signals (l : Lifecycle σ) (m : Machine σ) (name : SignalName) (s : MachineStep σ) :
    Prop where
  | offered (offers : m.offers l name s = true) (taken : m.taken? name s = none)
    (lost : m.lost? name s = none)
    (result : (m.step l s).signal name = (m.signal name).offer m.current)
  | taken (offers : m.offers l name s = false) (taken : m.taken? name s = (m.signal name).held)
    (lost : m.lost? name s = none) (result : (m.step l s).signal name = (m.signal name).take.2)
  | dropped (offers : m.offers l name s = false) (taken : m.taken? name s = none)
    (lost : m.lost? name s = (m.signal name).held)
    (result : (m.step l s).signal name = .dropped)
  | kept (offers : m.offers l name s = false) (taken : m.taken? name s = none)
    (lost : m.lost? name s = none) (result : (m.step l s).signal name = m.signal name)

theorem signals_step (l : Lifecycle σ) (m : Machine σ) (name : SignalName)
    (s : MachineStep σ) : Signals l m name s := by
  cases s with
  | next state message error =>
    by_cases hallowed : l.allows m.current.state state = true
    · have hnext := next_of_allowed message error hallowed
      cases name with
      | completed =>
        refine .offered ?_ rfl rfl ?_
        · simp [offers, moves, hnext, Except.isOk, Except.toBool]
        · simp [step, signal, hnext, Except.toOption]
      | expired => exact .kept rfl rfl rfl (by simp [step, signal, hnext, Except.toOption])
    · have hnext := next_of_not_allowed message error hallowed
      refine .kept ?_ rfl rfl ?_
      · cases name <;> simp [offers, moves, hnext, Except.isOk, Except.toBool]
      · simp [step, hnext, Except.toOption]
  | setDeadline record time =>
    refine .kept (by cases name <;> rfl) rfl rfl ?_
    by_cases hcurrent : m.current.sameEntry record = true
    · have hset := setDeadline_of_current time hcurrent
      cases name <;> simp [step, signal, hset, Except.toOption]
    · have hset := setDeadline_of_not_current time hcurrent
      simp [step, hset, Except.toOption]
  | wake g =>
    by_cases hpending : m.pending = some g
    · have hwake : m.step l (.wake g) =
          { m with pending := none, expired := m.expired.offer m.current } := if_pos hpending
      cases name with
      | completed => exact .kept rfl rfl rfl (by simp [hwake, signal])
      | expired => exact .offered (by simp [offers, hpending]) rfl rfl (by simp [hwake, signal])
    · have hwake : m.step l (.wake g) = m := if_neg hpending
      refine .kept ?_ rfl rfl (by rw [hwake])
      cases name <;> simp [offers, moves, hpending]
  | take name' =>
    have hoffers : m.offers l name (.take name') = false := by cases name <;> rfl
    by_cases hname : name' = name
    · subst hname
      refine .taken hoffers ?_ rfl (by cases name' <;> rfl)
      cases hsignal : m.signal name' <;> simp [taken?, hsignal, Signal.take, Signal.held]
    · refine .kept hoffers (if_neg hname) rfl ?_
      cases name <;> cases name' <;> first | rfl | exact absurd rfl hname
  | dropReceiver name' =>
    have hoffers : m.offers l name (.dropReceiver name') = false := by cases name <;> rfl
    by_cases hname : name' = name
    · subst hname
      exact .dropped hoffers rfl (if_pos rfl) (by cases name' <;> rfl)
    · refine .kept hoffers rfl (if_neg hname) ?_
      cases name <;> cases name' <;> first | rfl | exact absurd rfl hname

/-- What is put into a signal is the current record, where it is offered and there is room. -/
theorem put?_eq_some_iff {r : Record σ} : m.put? l name s = some r ↔
    m.offers l name s = true ∧ r = m.current ∧ m.signal name = .holding none := by
  rw [put?]
  cases m.signals_step l name s with
  | offered offers taken lost result =>
    rw [result, offers]
    rcases m.signal name with ⟨_ | r'⟩ | _ <;> simp [Signal.held, Signal.offer, eq_comm]
  | taken offers taken lost result =>
    rw [result, offers]
    rcases m.signal name with ⟨_ | r'⟩ | _ <;> simp [Signal.held, Signal.take]
  | dropped offers taken lost result =>
    rw [result, offers]
    rcases m.signal name with ⟨_ | r'⟩ | _ <;> simp [Signal.held]
  | kept offers taken lost result =>
    rw [result, offers]
    rcases m.signal name with ⟨_ | r'⟩ | _ <;> simp [Signal.held]

/-- In a step a signal is given one record or gives one away, and keeps the others. -/
theorem held_append_put (l : Lifecycle σ) (m : Machine σ) (name : SignalName)
    (s : MachineStep σ) :
    (m.signal name).held.toList ++ (m.put? l name s).toList =
      (m.taken? name s).toList ++ (m.lost? name s).toList ++
        ((m.step l s).signal name).held.toList := by
  rw [put?]
  cases m.signals_step l name s with
  | offered offers taken lost result =>
    rw [taken, lost, result]
    rcases m.signal name with ⟨_ | r⟩ | _ <;> rfl
  | taken offers taken lost result =>
    rw [taken, lost, result]
    rcases m.signal name with ⟨_ | r⟩ | _ <;> rfl
  | dropped offers taken lost result =>
    rw [taken, lost, result]
    rcases m.signal name with ⟨_ | r⟩ | _ <;> rfl
  | kept offers taken lost result =>
    rw [taken, lost, result]
    rcases m.signal name with ⟨_ | r⟩ | _ <;> rfl

/-- What is lost is lost for good: nothing can be taken afterwards. -/
theorem dropped_of_lost {r : Record σ} (h : m.lost? name s = some r) :
    (m.step l s).signal name = .dropped := by
  cases m.signals_step l name s with
  | offered _ _ lost _ => simp [lost] at h
  | taken _ _ lost _ => simp [lost] at h
  | dropped _ _ _ result => exact result
  | kept _ _ lost _ => simp [lost] at h

theorem dropped_step (h : m.signal name = .dropped) :
    m.taken? name s = none ∧ (m.step l s).signal name = .dropped := by
  cases m.signals_step l name s with
  | offered _ taken _ result => exact ⟨taken, by rw [result, h]; rfl⟩
  | taken _ taken _ result => exact ⟨by rw [taken, h]; rfl, by rw [result, h]; rfl⟩
  | dropped _ taken _ result => exact ⟨taken, result⟩
  | kept _ taken _ result => exact ⟨taken, result.trans h⟩

/-- After an offer the current record is ahead of the offered one by the lead of the signal. -/
theorem Numbered.lead_le (h : m.Numbered) (hoffers : m.offers l name s = true) :
    m.current.id + name.lead ≤ (m.step l s).current.id := by
  have hbefore := h.id_current
  have hafter := (h.step (l := l) s).id_current
  cases m.keeps_step l s with
  | appended state message error passed leads past current =>
    rw [past, List.length_append, List.length_singleton] at hafter
    cases name <;> simp only [SignalName.lead] <;> omega
  | kept deadline passed past current =>
    rw [past] at hafter
    cases name with
    | completed =>
      cases s <;> simp_all [offers, passed?, moves]
    | expired =>
      simp only [SignalName.lead]
      omega

theorem Numbered.id_le (h : m.Numbered) (s : MachineStep σ) :
    m.current.id ≤ (m.step l s).current.id := by
  have hbefore := h.id_current
  have hafter := (h.step (l := l) s).id_current
  have hpast := (m.past_step l s).length_le
  omega

/-! ## Runs -/

theorem takings_of_dropped (h : m.signal name = .dropped) (steps : List (MachineStep σ)) :
    m.takings l name steps = [] := by
  induction steps generalizing m with
  | nil => rfl
  | cons s steps ih =>
    obtain ⟨htaken, hdropped⟩ := dropped_step (l := l) (s := s) h
    rw [takings_cons, htaken, ih hdropped]
    rfl

/-- What a signal holds and is given in a run is taken in this order, then lost, or still held
at the end. -/
theorem held_append_puts (l : Lifecycle σ) (m : Machine σ) (name : SignalName)
    (steps : List (MachineStep σ)) :
    (m.signal name).held.toList ++ m.puts l name steps =
      m.takings l name steps ++ m.losses l name steps ++
        ((m.after l steps).signal name).held.toList := by
  induction steps generalizing m with
  | nil => exact List.append_nil _
  | cons s steps ih =>
    -- A record is lost only where nothing is taken any more, so that losses come last.
    have hswap : (m.lost? name s).toList ++ (m.step l s).takings l name steps =
        (m.step l s).takings l name steps ++ (m.lost? name s).toList := by
      cases hlost : m.lost? name s with
      | none => simp
      | some r => simp [takings_of_dropped (dropped_of_lost hlost) steps]
    have hafter : m.after l (s :: steps) = (m.step l s).after l steps := rfl
    calc (m.signal name).held.toList ++ m.puts l name (s :: steps)
      _ = ((m.signal name).held.toList ++ (m.put? l name s).toList) ++
            (m.step l s).puts l name steps := by rw [puts_cons, List.append_assoc]
      _ = (m.taken? name s).toList ++ (m.lost? name s).toList ++
            (((m.step l s).signal name).held.toList ++ (m.step l s).puts l name steps) := by
          rw [held_append_put, List.append_assoc]
      _ = (m.taken? name s).toList ++
            ((m.lost? name s).toList ++ (m.step l s).takings l name steps) ++
            ((m.step l s).losses l name steps ++
              (((m.step l s).after l steps).signal name).held.toList) := by
          rw [ih]
          simp only [List.append_assoc]
      _ = m.takings l name (s :: steps) ++ m.losses l name (s :: steps) ++
            ((m.after l (s :: steps)).signal name).held.toList := by
          rw [hswap, takings_cons, losses_cons, hafter]
          simp only [List.append_assoc]

/-- Nothing is lost while the receiver is not dropped. -/
theorem losses_of_not_mem {steps : List (MachineStep σ)}
    (h : MachineStep.dropReceiver name ∉ steps) : m.losses l name steps = [] := by
  induction steps generalizing m with
  | nil => rfl
  | cons s steps ih =>
    simp only [List.mem_cons, not_or] at h
    have hlost : m.lost? name s = none := by
      cases s with
      | dropReceiver name' =>
        have hname : name' ≠ name := fun hname => h.1 (by rw [hname])
        exact if_neg hname
      | _ => rfl
    rw [losses_cons, hlost, ih h.2]
    rfl

/-- The records put into a signal are numbered upwards from the current one, and each is ahead
of the earlier ones by the lead of the signal. -/
theorem Numbered.puts_ascend (h : m.Numbered) (steps : List (MachineStep σ)) :
    (∀ r ∈ m.puts l name steps, m.current.id ≤ r.id) ∧
      (m.puts l name steps).Pairwise fun r r' => r.id + name.lead ≤ r'.id := by
  induction steps generalizing m with
  | nil => simp [puts, observed]
  | cons s steps ih =>
    obtain ⟨hbounds, hpairs⟩ := ih (h.step s)
    have hmono := h.id_le (l := l) s
    rw [puts_cons]
    cases hput : m.put? l name s with
    | none =>
      refine ⟨?_, by simpa using hpairs⟩
      intro r hr
      have hr' := hbounds r (by simpa using hr)
      omega
    | some first =>
      obtain ⟨hoffers, rfl, -⟩ := put?_eq_some_iff.1 hput
      have hlead := h.lead_le hoffers
      constructor
      · intro r hr
        rcases List.mem_append.1 hr with hr | hr
        · simp_all
        · have hr' := hbounds r hr
          omega
      · refine List.pairwise_append.2 ⟨by simp, hpairs, ?_⟩
        intro r hr r' hr'
        have hfirst : r = m.current := by simpa using hr
        have hbound := hbounds r' hr'
        rw [hfirst]
        omega

/-- A completed record that is put into its signal is in the history from then on. -/
theorem Numbered.past_of_put (h : m.Numbered) {r : Record σ}
    (hput : m.put? l .completed s = some r) : (m.step l s).past[r.id]? = some r := by
  obtain ⟨hoffers, rfl, -⟩ := put?_eq_some_iff.1 hput
  have hid := h.id_current
  cases m.keeps_step l s with
  | appended state message error passed leads past current => simp [past, hid]
  | kept deadline passed past current => cases s <;> simp_all [offers, passed?, moves]

theorem Numbered.past_of_puts (h : m.Numbered) (steps : List (MachineStep σ)) {r : Record σ}
    (hr : r ∈ m.puts l .completed steps) : (m.after l steps).past[r.id]? = some r := by
  induction steps generalizing m with
  | nil => simp [puts, observed] at hr
  | cons s steps ih =>
    rcases List.mem_append.1 hr with hr | hr
    · have hput : m.put? l .completed s = some r := by simpa using hr
      have hpast := h.past_of_put hput
      have hlater : (m.step l s).past <+: (m.after l (s :: steps)).past :=
        past_after l (m.step l s) steps
      obtain ⟨later, hlater⟩ := hlater
      obtain ⟨hlt, -⟩ := List.getElem?_eq_some_iff.1 hpast
      rw [← hlater, List.getElem?_append_left hlt]
      exact hpast
    · exact ih (h.step s) hr

/-! ## Receivers do not interfere -/

/-- The machine apart from what its signals hold. -/
def core (m : Machine σ) : Machine σ :=
  { m with completed := .holding none, expired := .holding none }

theorem core_step_receipt (l : Lifecycle σ) (m : Machine σ) (h : s.isReceipt = true) :
    (m.step l s).core = m.core := by
  cases s with
  | take name => cases name <;> rfl
  | dropReceiver name => cases name <;> rfl
  | next state message error => exact absurd h (by simp [MachineStep.isReceipt])
  | setDeadline record time => exact absurd h (by simp [MachineStep.isReceipt])
  | wake g => exact absurd h (by simp [MachineStep.isReceipt])

theorem core_step (l : Lifecycle σ) (m : Machine σ) (s : MachineStep σ) :
    (m.step l s).core = (m.core.step l s).core := by
  cases s with
  | next state message error =>
    by_cases h : l.allows m.current.state state = true
    · simp [step, next, core, h, Except.toOption]
    · simp [step, next, core, h, Except.toOption]
  | setDeadline record time =>
    by_cases h : m.current.sameEntry record = true
    · simp [step, setDeadline, core, h, Except.toOption]
    · simp [step, setDeadline, core, h, Except.toOption]
  | wake g =>
    by_cases h : m.pending = some g
    · simp [step, wake, core, h]
    · simp [step, wake, core, h]
  | take name => cases name <;> rfl
  | dropReceiver name => cases name <;> rfl

theorem answer?_core (l : Lifecycle σ) (m : Machine σ) (s : MachineStep σ) :
    m.core.answer? l s = m.answer? l s := by
  cases s with
  | next state message error =>
    by_cases h : l.allows m.current.state state = true
    · simp [answer?, next, core, h, Except.map]
    · simp [answer?, next, core, h, Except.map]
  | setDeadline record time =>
    by_cases h : m.current.sameEntry record = true
    · simp [answer?, setDeadline, core, h, Except.map]
    · simp [answer?, setDeadline, core, h, Except.map]
  | _ => rfl

/-- A run answers what its calls alone would answer, and leads to the same machine apart from
the signals. -/
theorem answers_calls {m m' : Machine σ} (h : m.core = m'.core) (steps : List (MachineStep σ)) :
    m.answers l steps = m'.answers l (steps.filter fun s => !s.isReceipt) ∧
      (m.after l steps).core = (m'.after l (steps.filter fun s => !s.isReceipt)).core := by
  induction steps generalizing m m' with
  | nil => exact ⟨rfl, h⟩
  | cons s steps ih =>
    rw [answers_cons]
    by_cases hreceipt : s.isReceipt = true
    · have hanswer : m.answer? l s = none := by
        cases s <;> simp_all [MachineStep.isReceipt, answer?]
      have hfilter : (s :: steps).filter (fun s => !s.isReceipt) =
          steps.filter fun s => !s.isReceipt := by simp [hreceipt]
      rw [hfilter, hanswer]
      exact ih ((core_step_receipt l m hreceipt).trans h)
    · have hfilter : (s :: steps).filter (fun s => !s.isReceipt) =
          s :: steps.filter fun s => !s.isReceipt := by simp [hreceipt]
      have hanswer : m.answer? l s = m'.answer? l s := by
        rw [← answer?_core, h, answer?_core]
      have hstep : (m.step l s).core = (m'.step l s).core := by
        rw [core_step, h, ← core_step]
      rw [hfilter, hanswer]
      obtain ⟨hanswers, hafter⟩ := ih hstep
      exact ⟨congrArg _ hanswers, hafter⟩

/-- In every run of a new machine the completed records that are taken have ascending numbers,
and each is in the history where its number says. A step puts the record that it completes into
the signal exactly if the signal is empty and its receiver is there. What is put in is taken in
the same order, but for what is lost when the receiver is dropped and for what still waits, which
is what the receiver takes next. The numbers of the expired records that are taken do not
descend. A run that differs only in what the receivers do answers the same, and leads to the same
current record and history. -/
theorem signals_deliver_once (l : Lifecycle σ) (id : Nat) (initial : σ)
    (steps : List (MachineStep σ)) :
    let first := start id initial
    let m := first.after l steps
    ((first.takings l .completed steps).map Record.id).Pairwise (· < ·) ∧
      (∀ r ∈ first.takings l .completed steps, m.history[r.id]? = some r) ∧
      (∀ s r, m.put? l .completed s = some r ↔
        m.moves l s = true ∧ r = m.current ∧ m.completed = .holding none) ∧
      first.puts l .completed steps =
        first.takings l .completed steps ++ first.losses l .completed steps ++
          (m.taken? .completed (.take .completed)).toList ∧
      (.dropReceiver .completed ∉ steps → first.losses l .completed steps = []) ∧
      ((first.takings l .expired steps).map Record.id).Pairwise (· ≤ ·) ∧
      ∀ steps' : List (MachineStep σ),
        steps'.filter (fun s => !s.isReceipt) = steps.filter (fun s => !s.isReceipt) →
          first.answers l steps' = first.answers l steps ∧
            (first.after l steps').current = m.current ∧
            (first.after l steps').history = m.history := by
  intro first m
  have hnumbered : first.Numbered := numbered_start id initial
  have hempty (name : SignalName) : (first.signal name).held = none := by cases name <;> rfl
  have hputs (name : SignalName) : first.puts l name steps =
      first.takings l name steps ++ first.losses l name steps ++
        (m.signal name).held.toList := by
    have h := held_append_puts l first name steps
    rwa [hempty] at h
  have hstart (name : SignalName) : first.takings l name steps <+: first.puts l name steps := by
    rw [hputs, List.append_assoc]
    exact List.prefix_append _ _
  have hascend (name : SignalName) : ((first.takings l name steps).map Record.id).Pairwise
      fun i j => i + name.lead ≤ j := by
    have hpairs : (first.puts l name steps).Pairwise fun r r' => r.id + name.lead ≤ r'.id :=
      (hnumbered.puts_ascend steps).2
    exact List.pairwise_map.2 (hpairs.sublist (hstart name).sublist)
  refine ⟨hascend .completed, ?_, ?_, ?_, losses_of_not_mem, hascend .expired, ?_⟩
  · intro r hr
    have hpast := hnumbered.past_of_puts steps ((hstart .completed).mem hr)
    obtain ⟨hlt, -⟩ := List.getElem?_eq_some_iff.1 hpast
    rw [history, List.getElem?_append_left hlt]
    exact hpast
  · intro s r
    exact put?_eq_some_iff
  · have htake : m.taken? .completed (.take .completed) = (m.signal .completed).held := by
      rw [taken?, if_pos rfl]
      cases m.signal .completed <;> rfl
    rw [htake]
    exact hputs .completed
  · intro steps' hsteps
    obtain ⟨hanswers, hcore⟩ := answers_calls (l := l) (rfl : first.core = first.core) steps
    obtain ⟨hanswers', hcore'⟩ := answers_calls (l := l) (rfl : first.core = first.core) steps'
    rw [hsteps] at hanswers' hcore'
    have hsame : (first.after l steps').core = m.core := hcore'.trans hcore.symm
    have hcurrent : (first.after l steps').current = m.current := congrArg (·.current) hsame
    have hpast : (first.after l steps').past = m.past := congrArg (·.past) hsame
    refine ⟨hanswers'.trans hanswers.symm, hcurrent, ?_⟩
    rw [history, history, hpast, hcurrent]

end Machine

/-! ## A receiver that is late -/

namespace LateReceiver

/-- A container that comes up and fails before anybody listens; then the receiver of completed
records takes one, and misses what is completed while it is away. -/
def steps : List (MachineStep ContainerState) :=
  [.next .running "up" none, .next .failed "" none, .take .completed,
    .next .starting "again" none, .next .running "" none]

/-- The record of the container that ran is lost on the full signal, and nothing with the
receiver; without the receiver the same calls are answered the same. -/
theorem second_record_missed :
    ((Machine.start 0 .starting).puts ContainerState.lifecycle .completed steps).map Record.id =
        [0, 2] ∧
      (Machine.start 0 .starting).losses ContainerState.lifecycle .completed steps = [] ∧
      (Machine.start 0 .starting).answers ContainerState.lifecycle
          (.dropReceiver .completed :: steps.eraseIdx 2) =
        (Machine.start 0 .starting).answers ContainerState.lifecycle steps := by
  obtain ⟨-, -, -, -, hlosses, -, hanswers⟩ :=
    Machine.signals_deliver_once ContainerState.lifecycle 0 .starting steps
  have hkept : .dropReceiver .completed ∉ steps := by decide
  exact ⟨by decide, hlosses hkept, (hanswers _ (by decide)).1⟩

end LateReceiver

end Coordination
