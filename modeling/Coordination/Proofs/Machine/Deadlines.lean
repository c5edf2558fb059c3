import Coordination.Machine.Lifecycles
import Coordination.Proofs.Machine.Runs
import Mathlib.Data.List.Induction

/-!
# Deadlines that lapse

Old timers may wake at any time, for stopping a timer can come too late. That a deadline
lapses nevertheless only while it stands rests on its generation and on this: a deadline that
pends was set on the current record. So a timer offers a record exactly if its deadline is the
latest one and no move came after it, and what it offers is the record that the deadline was
set on. In a whole run no more deadlines lapse than were set, each at most once.
-/

namespace Coordination

universe u

namespace Machine

variable {σ : Type u}

/-- What a timer of a generation offers when it wakes: what an empty signal of expired
records holds afterwards. -/
def offered? (g : Nat) (m : Machine σ) : Option (Record σ) :=
  (({ m with expired := .holding none }).wake g).expired.take.1

/-- The deadline that lapses in a step: its generation, and the record that is offered. -/
def lapsed? (m : Machine σ) : MachineStep σ → Option (Nat × Record σ)
  | .wake g => (m.offered? g).map (g, ·)
  | _ => none

/-- The deadlines that are set in a run, in their order. -/
def armings (l : Lifecycle σ) : Machine σ → List (MachineStep σ) → List (Nat × Record σ) :=
  observed armed? l

/-- The deadlines that lapse in a run, in their order. -/
def lapses (l : Lifecycle σ) : Machine σ → List (MachineStep σ) → List (Nat × Record σ) :=
  observed lapsed? l

/-- No step of a run moves the machine or sets a deadline. -/
def Quiet (l : Lifecycle σ) : Machine σ → List (MachineStep σ) → Prop
  | _, [] => True
  | m, s :: steps => m.moves l s = false ∧ m.armed? s = none ∧ Quiet l (m.step l s) steps

/-- The latest deadline that was set in a run is of generation `g`, on the record `r`, and the
machine has not moved since. -/
def Stands (l : Lifecycle σ) (m : Machine σ) (steps : List (MachineStep σ)) (g : Nat)
    (r : Record σ) : Prop :=
  ∃ before s rest, steps = before ++ s :: rest ∧ (m.after l before).armed? s = some (g, r) ∧
    Quiet l ((m.after l before).step l s) rest

variable {l : Lifecycle σ} {m : Machine σ} {g : Nat} {r : Record σ}

/-! ## One step -/

/-- The deadline that pends, with the current record. -/
def pendingEntry (m : Machine σ) : Option (Nat × Record σ) := m.pending.map (·, m.current)

theorem pendingEntry_eq_some_iff : m.pendingEntry = some (g, r) ↔
    m.pending = some g ∧ m.current = r := by
  rw [pendingEntry, Option.map_eq_some_iff]
  constructor
  · rintro ⟨g', hpending, heq⟩
    cases heq
    exact ⟨hpending, rfl⟩
  · rintro ⟨hpending, rfl⟩
    exact ⟨g, hpending, rfl⟩

/-- A timer offers the current record if its deadline pends, and nothing otherwise. -/
theorem offered?_eq_some_iff : m.offered? g = some r ↔ m.pendingEntry = some (g, r) := by
  rw [pendingEntry_eq_some_iff, offered?, wake]
  by_cases hpending : m.pending = some g
  · rw [if_pos hpending, and_iff_right hpending]
    exact Option.some_inj
  · rw [if_neg hpending]
    exact iff_of_false (fun h => nomatch h) fun h => hpending h.1

/-- What is offered is put into the signal, if it has room; nothing else changes but that the
deadline pends no longer. -/
theorem wake_eq (g : Nat) (m : Machine σ) : m.wake g =
    match m.offered? g with
    | some r => { m with pending := none, expired := m.expired.offer r }
    | none => m := by
  by_cases hpending : m.pending = some g
  · have hoffered : m.offered? g = some m.current :=
      offered?_eq_some_iff.2 (pendingEntry_eq_some_iff.2 ⟨hpending, rfl⟩)
    rw [hoffered]
    exact if_pos hpending
  · have hoffered : m.offered? g = none := by
      refine Option.eq_none_iff_forall_ne_some.2 fun r hr => ?_
      exact hpending (pendingEntry_eq_some_iff.1 (offered?_eq_some_iff.1 hr)).1
    rw [hoffered]
    exact if_neg hpending

/-- After a step a deadline pends that the step sets, or one that pended before and was
neither overtaken nor has lapsed. -/
theorem pendingEntry_step (l : Lifecycle σ) (m : Machine σ) {s : MachineStep σ}
    (hawake : s ≠ .wake g) : (m.step l s).pendingEntry = some (g, r) ↔
      m.armed? s = some (g, r) ∨
        m.pendingEntry = some (g, r) ∧ m.moves l s = false ∧ m.armed? s = none := by
  rw [pendingEntry_eq_some_iff, pendingEntry_eq_some_iff]
  cases m.passes_step l s with
  | moved moves armed pending generation =>
    rw [pending, armed, moves]
    simp
  | armed moves armed pending generation =>
    rw [pending, armed]
    simp
  | lapsed g' wakes pending result =>
    have hne : g' ≠ g := by
      rintro rfl
      exact hawake wakes
    rw [result, wakes, pending]
    simp [armed?, hne]
  | kept moves armed wakes pending current generation =>
    rw [pending, current, armed, moves]
    simp

/-- What lapses in a step, and what pends after it, pended before or is set by the step. -/
theorem lapsed_append_pending (l : Lifecycle σ) (m : Machine σ) (s : MachineStep σ) :
    ((m.lapsed? s).toList ++ (m.step l s).pendingEntry.toList).Sublist
      (m.pendingEntry.toList ++ (m.armed? s).toList) := by
  have hlapsed (hwakes : ∀ g, s = .wake g → m.pending ≠ some g) : m.lapsed? s = none := by
    cases s with
    | wake g =>
      have hoffered : m.offered? g = none := by
        refine Option.eq_none_iff_forall_ne_some.2 fun r hr => ?_
        exact hwakes g rfl (pendingEntry_eq_some_iff.1 (offered?_eq_some_iff.1 hr)).1
      rw [lapsed?, hoffered]
      rfl
    | next state message error => rfl
    | setDeadline record time => rfl
    | take name => rfl
    | dropReceiver name => rfl
  cases m.passes_step l s with
  | moved moves armed pending generation =>
    have hnone : (m.step l s).pendingEntry = none := by rw [pendingEntry, pending]; rfl
    have hawake (g : Nat) (hwake : s = .wake g) : m.pending ≠ some g := by
      rw [hwake] at moves
      cases moves
    rw [hnone, hlapsed hawake]
    exact List.nil_sublist _
  | armed moves armed pending generation =>
    have hnew : (m.step l s).pendingEntry = m.armed? s := by
      rw [armed, pendingEntry, pending]
      rfl
    have hawake (g : Nat) (hwake : s = .wake g) : m.pending ≠ some g := by
      rw [hwake] at armed
      cases armed
    rw [hnew, hlapsed hawake]
    exact List.sublist_append_right _ _
  | lapsed g wakes pending result =>
    have hentry : m.pendingEntry = some (g, m.current) :=
      pendingEntry_eq_some_iff.2 ⟨pending, rfl⟩
    have hnone : (m.step l s).pendingEntry = none := by rw [result]; rfl
    have hsome : m.lapsed? s = some (g, m.current) := by
      rw [wakes, lapsed?, offered?_eq_some_iff.2 hentry]
      rfl
    rw [hnone, hentry, hsome]
    exact List.sublist_append_left _ _
  | kept moves armed wakes pending current generation =>
    have hsame : (m.step l s).pendingEntry = m.pendingEntry := by
      rw [pendingEntry, pendingEntry, pending, current]
    rw [hsame, hlapsed wakes]
    exact List.sublist_append_left _ _

/-! ## Runs -/

theorem quiet_concat {steps : List (MachineStep σ)} {s : MachineStep σ} :
    Quiet l m (steps ++ [s]) ↔ Quiet l m steps ∧ (m.after l steps).moves l s = false ∧
      (m.after l steps).armed? s = none := by
  induction steps generalizing m with
  | nil =>
    show (_ ∧ _ ∧ True) ↔ (True ∧ _ ∧ _)
    rw [and_true, true_and]
    rfl
  | cons s' steps ih =>
    show (_ ∧ _ ∧ Quiet l (m.step l s') (steps ++ [s])) ↔ ((_ ∧ _ ∧ _) ∧ _)
    rw [ih, and_assoc, and_assoc]
    rfl

/-- A deadline stands after a further step if the step sets it, or if it stood before and the
step neither moves the machine nor sets another. -/
theorem stands_concat {steps : List (MachineStep σ)} {s : MachineStep σ} :
    Stands l m (steps ++ [s]) g r ↔ (m.after l steps).armed? s = some (g, r) ∨
      Stands l m steps g r ∧ (m.after l steps).moves l s = false ∧
        (m.after l steps).armed? s = none := by
  constructor
  · rintro ⟨before, s', rest, heq, harmed, hquiet⟩
    rcases List.eq_nil_or_concat rest with rfl | ⟨rest, last, hrest⟩
    · obtain ⟨rfl, hlast⟩ := List.append_inj' heq rfl
      cases hlast
      exact Or.inl harmed
    · rw [List.concat_eq_append] at hrest
      subst hrest
      have hsplit : steps ++ [s] = (before ++ s' :: rest) ++ [last] := by
        rw [heq, List.append_assoc, List.cons_append]
      obtain ⟨rfl, hlast⟩ := List.append_inj' hsplit rfl
      cases hlast
      obtain ⟨hquiet, hmoves, hnone⟩ := quiet_concat.1 hquiet
      have hafter : m.after l (before ++ s' :: rest) =
          ((m.after l before).step l s').after l rest := after_append l m before (s' :: rest)
      rw [hafter]
      exact Or.inr ⟨⟨before, s', rest, rfl, harmed, hquiet⟩, hmoves, hnone⟩
  · rintro (harmed | ⟨⟨before, s', rest, rfl, harmed, hquiet⟩, hmoves, hnone⟩)
    · exact ⟨steps, s, [], rfl, harmed, trivial⟩
    · have hafter : m.after l (before ++ s' :: rest) =
          ((m.after l before).step l s').after l rest := after_append l m before (s' :: rest)
      rw [hafter] at hmoves hnone
      refine ⟨before, s', rest ++ [s], ?_, harmed, quiet_concat.2 ⟨hquiet, hmoves, hnone⟩⟩
      rw [List.append_assoc, List.cons_append]

/-- As long as its timer has not woken, a deadline pends exactly while it stands. -/
theorem pendingEntry_after (hpending : m.pending = none) {steps : List (MachineStep σ)}
    (hasleep : .wake g ∉ steps) :
    (m.after l steps).pendingEntry = some (g, r) ↔ Stands l m steps g r := by
  -- Induction on the run from its end, where the last step decides.
  induction steps using List.reverseRecOn with
  | nil =>
    have hnone : (m.after l []).pendingEntry = none := by
      rw [pendingEntry]
      show (m.pending.map _) = none
      rw [hpending]
      rfl
    rw [hnone]
    refine iff_of_false (fun h => nomatch h) ?_
    rintro ⟨before, s, rest, heq, _, _⟩
    exact absurd heq (by simp)
  | append_singleton steps s ih =>
    rw [List.mem_append, not_or, List.mem_singleton] at hasleep
    rw [after_concat, pendingEntry_step l _ fun h => hasleep.2 h.symm, ih hasleep.1,
      stands_concat]

theorem lapses_sublist_armings (l : Lifecycle σ) (m : Machine σ)
    (steps : List (MachineStep σ)) :
    (m.lapses l steps).Sublist (m.pendingEntry.toList ++ m.armings l steps) := by
  induction steps generalizing m with
  | nil => exact List.nil_sublist _
  | cons s steps ih =>
    have hstep := lapsed_append_pending l m s
    have hrest := (List.Sublist.refl (m.lapsed? s).toList).append (ih (m.step l s))
    have hjoined := hstep.append (List.Sublist.refl ((m.step l s).armings l steps))
    rw [List.append_assoc, List.append_assoc] at hjoined
    exact hrest.trans hjoined

theorem generation_armings (l : Lifecycle σ) (m : Machine σ) (steps : List (MachineStep σ)) :
    (∀ a ∈ m.armings l steps, m.generation < a.1) ∧
      ((m.armings l steps).map Prod.fst).Pairwise (· < ·) := by
  induction steps generalizing m with
  | nil => exact ⟨List.forall_mem_nil _, List.Pairwise.nil⟩
  | cons s steps ih =>
    obtain ⟨hlater, hpairwise⟩ := ih (m.step l s)
    show (∀ a ∈ (m.armed? s).toList ++ (m.step l s).armings l steps, _) ∧
      (((m.armed? s).toList ++ (m.step l s).armings l steps).map Prod.fst).Pairwise _
    have hunarmed (harmed : m.armed? s = none)
        (hgeneration : (m.step l s).generation = m.generation) :
        (∀ a ∈ (m.armed? s).toList ++ (m.step l s).armings l steps, m.generation < a.1) ∧
          (((m.armed? s).toList ++ (m.step l s).armings l steps).map Prod.fst).Pairwise
            (· < ·) := by
      rw [harmed, ← hgeneration]
      exact ⟨hlater, hpairwise⟩
    cases m.passes_step l s with
    | moved moves armed pending generation => exact hunarmed armed generation
    | armed moves armed pending generation =>
      rw [generation] at hlater
      rw [armed]
      constructor
      · intro a ha
        rcases List.mem_cons.1 ha with rfl | ha
        · exact Nat.lt_succ_self _
        · have hlt := hlater a ha
          omega
      · refine List.pairwise_cons.2 ⟨?_, hpairwise⟩
        intro g hg
        obtain ⟨a, ha, rfl⟩ := List.mem_map.1 hg
        exact hlater a ha
    | lapsed g wakes pending result =>
      refine hunarmed ?_ ?_
      · rw [wakes]
        rfl
      · rw [result]
    | kept moves armed wakes pending current generation => exact hunarmed armed generation

/-- A timer that has not woken before offers a record exactly if its deadline is the latest
one that was set and no move came after it; the record is the one that the deadline was set
on, and still the current one. What is offered goes into the signal of expired records, and
neither the current record nor any before it changes. In the whole run, what lapses are some
of the deadlines that were set, each at most once, for no two have one generation. -/
theorem lapses_while_it_stands (l : Lifecycle σ) (id : Nat) (initial : σ)
    (steps : List (MachineStep σ)) (g : Nat) (hasleep : .wake g ∉ steps) :
    let first := start id initial
    let m := first.after l steps
    (∀ r, m.offered? g = some r ↔ Stands l first steps g r) ∧
      (∀ r, m.offered? g = some r → r = m.current) ∧
      (m.wake g).expired =
        (match m.offered? g with
        | some r => m.expired.offer r
        | none => m.expired) ∧
      (m.wake g).current = m.current ∧
      (m.wake g).history = m.history ∧
      (first.lapses l (steps ++ [.wake g])).Sublist (first.armings l (steps ++ [.wake g])) ∧
      ((first.armings l (steps ++ [.wake g])).map Prod.fst).Pairwise (· < ·) := by
  intro first m
  refine ⟨?_, ?_, ?_, ?_, ?_, ?_, ?_⟩
  · intro r
    have hpending : first.pending = none := rfl
    rw [offered?_eq_some_iff]
    exact pendingEntry_after hpending hasleep
  · intro r hr
    exact (pendingEntry_eq_some_iff.1 (offered?_eq_some_iff.1 hr)).2.symm
  · rw [wake_eq]
    split <;> rfl
  · rw [wake_eq]
    split <;> rfl
  · rw [wake_eq]
    split <;> rfl
  · exact lapses_sublist_armings l first (steps ++ [.wake g])
  · exact (generation_armings l first (steps ++ [.wake g])).2

end Machine

/-! ## Timers that wake too late -/

namespace LateTimers

/-- The record of a container that runs, before a deadline is set on it. -/
def running : Record ContainerState := ⟨0, 1, .running, "", none, none⟩

/-- The deadline for starting is set twice, and both of its timers wake nevertheless: the
first when it was replaced, the second when the container runs under a deadline of its own. -/
def steps : List (MachineStep ContainerState) :=
  [.setDeadline ⟨0, 0, .starting, "", none, none⟩ 5,
    .setDeadline ⟨0, 0, .starting, "", none, none⟩ 9, .wake 1, .next .running "" none,
    .setDeadline running 3, .wake 2]

/-- The third timer offers the record of the container that runs; the other two offered
nothing. -/
theorem third_timer_offers :
    ((Machine.start 0 .starting).after ContainerState.lifecycle steps).offered? 3 =
        some { running with deadline := some 3 } ∧
      (Machine.start 0 .starting).lapses ContainerState.lifecycle (steps ++ [.wake 3]) =
        [(3, { running with deadline := some 3 })] := by
  have hasleep : .wake 3 ∉ steps := by decide
  have hstands : Machine.Stands ContainerState.lifecycle (.start 0 .starting) steps 3
      { running with deadline := some 3 } :=
    ⟨steps.take 4, .setDeadline running 3, [.wake 2], rfl, rfl, rfl, rfl, trivial⟩
  obtain ⟨hoffers, _⟩ :=
    Machine.lapses_while_it_stands ContainerState.lifecycle 0 .starting steps 3 hasleep
  exact ⟨(hoffers _).2 hstands, rfl⟩

end LateTimers

end Coordination
