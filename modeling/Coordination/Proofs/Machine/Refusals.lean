import Coordination.Machine.Lifecycles
import Coordination.Proofs.Machine.Fleets

/-!
# Refused calls

A fleet refuses a move that the lifecycle does not list, and a deadline on a record that is not
the current one of its machine. A refused call leaves no trace: a run without its refused calls
answers all others the same, lets the same deadlines lapse at the same times, and leads to the
same fleet. This rests on deadlines that are due having lapsed at the end of every step, so that
a call without effect does not let one lapse either.

Times are those of the clock of the fleet; nothing is said of any other clock.
-/

namespace Coordination

universe u

variable {σ : Type u}

namespace Member

/-- The deadline that lapses at a time: when it was due, and the record that is offered. -/
def lapsed? (now : Nat) (m : Member σ) : Option (Nat × Record σ) :=
  if m.machine.pending ≠ none ∧ (m.settle now).machine.pending = none then
    some (m.dueAt, m.machine.current)
  else none

theorem settle_of_pending_eq_none {m : Member σ} (h : m.machine.pending = none) (now : Nat) :
    m.settle now = m := by
  rw [settle, h]

theorem settle_settle (now : Nat) (m : Member σ) :
    (m.settle now).settle now = m.settle now := by
  rcases m.settle_eq now with h | ⟨g, hpending, h⟩
  · rw [h, h]
  · rw [h]
    refine settle_of_pending_eq_none ?_ now
    simp only [Machine.wake, if_pos hpending]

theorem lapsed?_of_settle_eq {now : Nat} {m : Member σ} (h : m.settle now = m) :
    m.lapsed? now = none := by
  rw [lapsed?, h]
  exact if_neg fun hpending => hpending.1 hpending.2

end Member

theorem FleetAnswer.isRefused_iff {a : FleetAnswer σ} :
    a.isRefused = true ↔ ∃ e, a = .refused e := by
  cases a <;> simp [isRefused]

/-- What happens in a step: what it answers, the deadlines that lapse, each with the position of
its machine and the time when it was due, and the fleet afterwards. -/
structure FleetMoment (σ : Type u) where
  step : FleetStep σ
  answer : FleetAnswer σ
  lapsed : List (Nat × Nat × Record σ)
  fleet : Fleet σ

/-- Whether the step was not refused. -/
def FleetMoment.admits (x : FleetMoment σ) : Bool := !x.answer.isRefused

namespace Fleet

/-- The deadlines that lapse, each with the position of its machine. -/
def lapsing (f : Fleet σ) : List (Nat × Nat × Record σ) :=
  f.members.zipIdx.filterMap fun (m, i) => (m.lapsed? f.now).map (i, ·)

/-- What happens in a step. -/
def moment (l : Lifecycle σ) (f : Fleet σ) (s : FleetStep σ) : FleetMoment σ where
  step := s
  answer := (f.step l s).1
  lapsed := (f.act l s).2.lapsing
  fleet := (f.step l s).2

/-- What happens in a run, step by step. -/
def trace (l : Lifecycle σ) : Fleet σ → List (FleetStep σ) → List (FleetMoment σ)
  | _, [] => []
  | f, s :: steps => f.moment l s :: trace l (f.step l s).2 steps

/-- The steps of a run that are not refused. -/
def admitted (l : Lifecycle σ) : Fleet σ → List (FleetStep σ) → List (FleetStep σ)
  | _, [] => []
  | f, s :: steps =>
    let rest := admitted l (f.step l s).2 steps
    if (f.step l s).1.isRefused then rest else s :: rest

variable {l : Lifecycle σ} {f : Fleet σ} {s : FleetStep σ} {i : Nat} {m : Member σ}

section

variable {steps : List (FleetStep σ)}

theorem trace_cons : f.trace l (s :: steps) = f.moment l s :: (f.step l s).2.trace l steps := rfl

theorem filter_cons_of_refused (h : (f.step l s).1.isRefused = true)
    (rest : List (FleetMoment σ)) :
    (f.moment l s :: rest).filter FleetMoment.admits = rest.filter FleetMoment.admits :=
  List.filter_cons_of_neg (by simp [FleetMoment.admits, moment, h])

theorem filter_cons_of_not_refused (h : (f.step l s).1.isRefused = false)
    (rest : List (FleetMoment σ)) : (f.moment l s :: rest).filter FleetMoment.admits =
      f.moment l s :: rest.filter FleetMoment.admits :=
  List.filter_cons_of_pos (by simp [FleetMoment.admits, moment, h])

theorem admitted_cons_of_refused (h : (f.step l s).1.isRefused = true) :
    f.admitted l (s :: steps) = (f.step l s).2.admitted l steps := if_pos h

theorem admitted_cons_of_not_refused (h : (f.step l s).1.isRefused = false) :
    f.admitted l (s :: steps) = s :: (f.step l s).2.admitted l steps :=
  if_neg (by rw [h]; exact Bool.false_ne_true)

end

/-! ## What is refused -/

/-- A move is refused exactly if the lifecycle does not list it. -/
theorem next_refused_iff (h : f.members[i]? = some m) (hlive : m.gone = false) {state : σ}
    {message : String} {error : Option String} {e : MachineError σ} :
    (f.step l (.next i state message error)).1 = .refused e ↔
      ¬ l.Leads m.machine.current.state state ∧
        e = .stateNotAllowed m.machine.current.state state := by
  rw [step, act, withMember_of_live h hlive, ← Lifecycle.allows_iff_leads]
  by_cases hallowed : l.allows m.machine.current.state state = true
  · rw [Machine.next_of_allowed message error hallowed]
    simp [hallowed]
  · rw [Machine.next_of_not_allowed message error hallowed]
    simp [hallowed, eq_comm]

/-- A deadline is refused exactly if its record is another entry than the current one. -/
theorem deadline_refused_iff (h : f.members[i]? = some m) (hlive : m.gone = false) {time : Nat}
    {on : Option String} {e : MachineError σ} {r : Record σ}
    (hr : (on.bind f.kept.get?).getD m.machine.current = r) :
    (f.step l (.deadline i time on)).1 = .refused e ↔
      (r.machine ≠ m.machine.current.machine ∨ r.id ≠ m.machine.current.id) ∧
        e = .invalidState r.id m.machine.current.id := by
  have hsame : m.machine.current.sameEntry r = true ↔
      r.machine = m.machine.current.machine ∧ r.id = m.machine.current.id := by
    simp only [Record.sameEntry, Bool.and_eq_true, decide_eq_true_eq]
    exact and_congr eq_comm eq_comm
  rw [step, act, withMember_of_live h hlive]
  simp only [hr]
  by_cases hcurrent : m.machine.current.sameEntry r = true
  · rw [Machine.setDeadline_of_current time hcurrent]
    simp [hsame.1 hcurrent]
  · rw [Machine.setDeadline_of_not_current time hcurrent]
    rw [hsame, not_and_or] at hcurrent
    simp [hcurrent, eq_comm]

/-! ## Fleets whose due deadlines have lapsed -/

/-- All deadlines that are due have lapsed. -/
def Settled (f : Fleet σ) : Prop := ∀ m ∈ f.members, m.settle f.now = m

theorem settled_settle (f : Fleet σ) : f.settle.Settled := by
  intro m hm
  obtain ⟨m, -, rfl⟩ := List.mem_map.1 hm
  exact m.settle_settle f.now

theorem settled_step (l : Lifecycle σ) (f : Fleet σ) (s : FleetStep σ) :
    (f.step l s).2.Settled := settled_settle _

/-- At the start no deadline pends. -/
theorem settled_start (initials : List σ) (kept : OrderedMap (Record σ)) :
    Settled { start initials with kept } := by
  intro m hm
  obtain ⟨i, hi, rfl⟩ := List.mem_mapIdx.1 hm
  exact Member.settle_of_pending_eq_none rfl _

namespace Settled

theorem settle_eq (h : f.Settled) : f.settle = f := by
  have hmembers : f.members.map (Member.settle f.now) = f.members :=
    (List.map_congr_left h).trans (List.map_id _)
  rw [settle, hmembers]

theorem lapsing_eq_nil (h : f.Settled) : f.lapsing = [] := by
  refine List.filterMap_eq_nil_iff.2 fun x hx => ?_
  have hsame : x.1.settle f.now = x.1 := h x.1 (List.fst_mem_of_mem_zipIdx hx)
  exact Option.map_eq_none_iff.2 (Member.lapsed?_of_settle_eq hsame)

/-- A refused call leaves the fleet as it is, and no deadline lapses. -/
theorem of_refused (h : f.Settled) (hrefused : (f.step l s).1.isRefused = true) :
    (f.step l s).2 = f ∧ (f.moment l s).lapsed = [] := by
  have hsame : (f.act l s).2 = f := act_of_refused hrefused
  constructor
  · show (f.act l s).2.settle = f
    rw [hsame]
    exact h.settle_eq
  · show (f.act l s).2.lapsing = []
    rw [hsame]
    exact h.lapsing_eq_nil

/-- A run without its refused calls is the rest of the run. -/
theorem trace_admitted (h : f.Settled) (steps : List (FleetStep σ)) :
    f.trace l (f.admitted l steps) = (f.trace l steps).filter FleetMoment.admits := by
  induction steps generalizing f with
  | nil => rfl
  | cons s steps ih =>
    have hrest := ih (settled_step l f s)
    cases hrefused : (f.step l s).1.isRefused with
    | true =>
      rw [admitted_cons_of_refused hrefused, trace_cons, filter_cons_of_refused hrefused]
      rw [(h.of_refused hrefused).1] at hrest ⊢
      exact hrest
    | false =>
      rw [admitted_cons_of_not_refused hrefused, trace_cons, trace_cons, hrest,
        filter_cons_of_not_refused hrefused]

/-- Nothing lapses in refused calls, so the same deadlines lapse without them. -/
theorem lapsed_admitted (h : f.Settled) (steps : List (FleetStep σ)) :
    (f.trace l (f.admitted l steps)).flatMap (·.lapsed) =
      (f.trace l steps).flatMap (·.lapsed) := by
  rw [h.trace_admitted]
  induction steps generalizing f with
  | nil => rfl
  | cons s steps ih =>
    have hrest := ih (settled_step l f s)
    rw [trace_cons, List.flatMap_cons, ← hrest]
    cases hrefused : (f.step l s).1.isRefused with
    | true => rw [filter_cons_of_refused hrefused, (h.of_refused hrefused).2, List.nil_append]
    | false => rw [filter_cons_of_not_refused hrefused, List.flatMap_cons]

theorem after_admitted (h : f.Settled) (steps : List (FleetStep σ)) :
    f.after l (f.admitted l steps) = f.after l steps := by
  induction steps generalizing f with
  | nil => rfl
  | cons s steps ih =>
    have hrest := ih (settled_step l f s)
    have hafter : f.after l (s :: steps) = (f.step l s).2.after l steps := rfl
    rw [hafter, ← hrest]
    cases hrefused : (f.step l s).1.isRefused with
    | true => rw [admitted_cons_of_refused hrefused, (h.of_refused hrefused).1]
    | false =>
      rw [admitted_cons_of_not_refused hrefused]
      rfl

end Settled

/-- To keep the current record of a machine is to find it kept. -/
theorem exists_of_keep {name : String} (h : (f.step l (.keep j name)).1 = .done) :
    ∃ m, f.members[j]? = some m ∧
      (f.step l (.keep j name)).2.kept.get? name = some m.machine.current := by
  rcases f.live_or_dropped j with ⟨m, hget, hlive⟩ | hdropped
  · refine ⟨m, hget, ?_⟩
    show (f.withMember j _).2.kept.get? name = _
    rw [withMember_of_live hget hlive]
    exact OrderedMap.get?_insert_self _ _ _
  · have hanswer : (f.step l (.keep j name)).1 = .dropped :=
      congrArg Prod.fst (hdropped fun m => (.done, _))
    rw [hanswer] at h
    cases h

/-- A record that is kept can be given a deadline on its own machine until the machine moves,
and on no other machine ever. -/
theorem Placed.kept_refused_iff (hf : f.Placed) {name : String}
    (hkeep : (f.step l (.keep j name)).1 = .done) {rest : List (FleetStep σ)}
    (hrest : ∀ k, .keep k name ∉ rest)
    (h : ((f.step l (.keep j name)).2.after l rest).members[i]? = some m)
    (hlive : m.gone = false) (time : Nat) :
    (((f.step l (.keep j name)).2.after l rest).step l
        (.deadline i time (some name))).1.isRefused = true ↔
      i ≠ j ∨ (f.step l (.keep j name)).2.moves l j rest ≠ 0 := by
  obtain ⟨m₀, hget, hkept⟩ := exists_of_keep hkeep
  have hlast : ((f.step l (.keep j name)).2.after l rest).Placed :=
    hf.after l (.keep j name :: rest)
  have hplaced := hlast i m h
  have hrecord : ((some name).bind
      ((f.step l (.keep j name)).2.after l rest).kept.get?).getD m.machine.current =
        m₀.machine.current := by
    rw [Option.bind_some, kept_after hrest, hkept]
    rfl
  have howner : m₀.machine.current.machine = j := (hf j m₀ hget).owner
  rw [FleetAnswer.isRefused_iff]
  simp only [deadline_refused_iff h hlive hrecord, exists_and_left, exists_eq, and_true, howner,
    hplaced.owner]
  by_cases hij : i = j
  · subst hij
    -- The moves of the machine are what its current record is ahead of the one that is kept.
    obtain ⟨m₁, hget₁, -, hpast₁⟩ := member_step (l := l) (s := .keep i name) hget
    obtain ⟨m₂, hget₂, -, hpast₂⟩ := member_after (l := l) hget₁ rest
    obtain rfl : m₂ = m := Option.some.inj (hget₂.symm.trans h)
    have hunmoved : (FleetStep.keep i name : FleetStep σ).moved i (f.step l (.keep i name)).1 =
        false := rfl
    have hid₀ := (hf i m₀ hget).numbered.id_current
    have hid₂ := hplaced.numbered.id_current
    rw [hunmoved] at hpast₁
    simp only [Bool.toNat_false] at hpast₁
    omega
  · exact iff_of_true (Or.inl (Ne.symm hij)) (Or.inl hij)

/-- In every run, and whatever records were kept before it, a move is refused exactly if the
lifecycle lists no state that is the same, and a deadline exactly if its record is of another
machine or has another id than the current one; so a record that is kept is refused by all other
machines, and accepted by its own until that moves, whatever deadlines are set meanwhile. A run
without its refused calls answers all others the same, with the same fleet after each of them,
and lets the same deadlines lapse. -/
theorem refusals_leave_no_trace (l : Lifecycle σ) (initials : List σ)
    (kept : OrderedMap (Record σ)) (steps : List (FleetStep σ)) :
    let first : Fleet σ := { start initials with kept }
    let last := first.after l steps
    (∀ i m, last.members[i]? = some m → m.gone = false →
      (∀ state message error e, (last.step l (.next i state message error)).1 = .refused e ↔
        ¬ l.Leads m.machine.current.state state ∧
          e = .stateNotAllowed m.machine.current.state state) ∧
      ∀ time on r, (on.bind last.kept.get?).getD m.machine.current = r → ∀ e,
        (last.step l (.deadline i time on)).1 = .refused e ↔
          (r.machine ≠ i ∨ r.id ≠ m.machine.current.id) ∧
            e = .invalidState r.id m.machine.current.id) ∧
    (∀ before j name rest, steps = before ++ .keep j name :: rest →
      ((first.after l before).step l (.keep j name)).1 = .done → (∀ k, .keep k name ∉ rest) →
      ∀ i m, last.members[i]? = some m → m.gone = false → ∀ time,
        (last.step l (.deadline i time (some name))).1.isRefused = true ↔
          i ≠ j ∨ ((first.after l before).step l (.keep j name)).2.moves l j rest ≠ 0) ∧
    first.trace l (first.admitted l steps) = (first.trace l steps).filter FleetMoment.admits ∧
    (first.trace l (first.admitted l steps)).flatMap (·.lapsed) =
      (first.trace l steps).flatMap (·.lapsed) ∧
    first.after l (first.admitted l steps) = last := by
  intro first last
  have hplaced : first.Placed := placed_start initials kept
  have hsettled : first.Settled := settled_start initials kept
  refine ⟨fun i m hget hlive => ⟨fun state message error e => next_refused_iff hget hlive,
    fun time on r hr e => ?_⟩, ?_, hsettled.trace_admitted steps, hsettled.lapsed_admitted steps,
    hsettled.after_admitted steps⟩
  · rw [deadline_refused_iff hget hlive hr, (hplaced.after l steps i m hget).owner]
  · intro before j name rest hsteps hkeep hrest i m hget hlive time
    have hlast : last = ((first.after l before).step l (.keep j name)).2.after l rest := by
      show first.after l steps = _
      rw [hsteps, after_append]
      rfl
    rw [hlast] at hget ⊢
    exact (hplaced.after l before).kept_refused_iff hkeep hrest hget hlive time

end Fleet

/-! ## A record of another machine -/

namespace ForeignRecord

/-- Two containers that start. The record of the first one is given a deadline twice; a deadline
on it is asked of the second container, and both are told to go where they cannot. -/
def steps : List (FleetStep ContainerState) :=
  [.keep 0 "first", .deadline 0 5 (some "first"), .deadline 1 1 (some "first"),
    .next 0 .removed "" none, .sleep 3, .deadline 0 4 (some "first"), .next 1 .stopped "" none,
    .sleep 4, .take 0 .expired]

/-- The steps that are not refused. -/
def others : List (FleetStep ContainerState) :=
  [.keep 0 "first", .deadline 0 5 (some "first"), .sleep 3, .deadline 0 4 (some "first"),
    .sleep 4, .take 0 .expired]

/-- The second container refuses the record of the first one, though both are in the same state
and have no other record; the first container accepts it still. Without the refused calls the
same deadline lapses at the same time. -/
theorem second_container_refuses :
    let first : Fleet ContainerState :=
      { Fleet.start [.starting, .starting] with kept := OrderedMap.empty }
    let last := first.after ContainerState.lifecycle steps
    (last.step ContainerState.lifecycle (.deadline 1 1 (some "first"))).1.isRefused = true ∧
      (last.step ContainerState.lifecycle (.deadline 0 1 (some "first"))).1.isRefused = false ∧
      (first.trace ContainerState.lifecycle others).flatMap (·.lapsed) =
        [(0, 7, ⟨0, 0, .starting, "", none, some 4⟩)] ∧
      first.after ContainerState.lifecycle others = last := by
  intro first last
  obtain ⟨-, hkept, -, hlapsed, hafter⟩ :=
    Fleet.refusals_leave_no_trace ContainerState.lifecycle [.starting, .starting]
      OrderedMap.empty steps
  have hothers : first.admitted ContainerState.lifecycle steps = others := by decide +kernel
  have hlive (i : Nat) (hi : i < 2) : ∃ m, last.members[i]? = some m ∧ m.gone = false :=
    Option.map_eq_some_iff.1 ((by decide +kernel : ∀ i < 2,
      (last.members[i]?).map (·.gone) = some false) i hi)
  obtain ⟨m₀, hget₀, hlive₀⟩ := hlive 0 (by decide)
  obtain ⟨m₁, hget₁, hlive₁⟩ := hlive 1 (by decide)
  have hkeep : (first.step ContainerState.lifecycle (.keep 0 "first")).1 = .done := rfl
  have hrest : ∀ k, FleetStep.keep k "first" ∉ steps.tail := by simp [steps]
  have hrecord := hkept [] 0 "first" steps.tail rfl hkeep hrest
  rw [hothers] at hlapsed hafter
  refine ⟨(hrecord 1 m₁ hget₁ hlive₁ 1).2 (Or.inl (by decide)), ?_,
    hlapsed.trans (by decide +kernel), hafter⟩
  rw [← Bool.not_eq_true, hrecord 0 m₀ hget₀ hlive₀ 1]
  decide +kernel

end ForeignRecord

end Coordination
