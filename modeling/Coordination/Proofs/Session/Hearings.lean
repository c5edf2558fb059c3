import Coordination.Proofs.Session.Runs

/-!
# What handlers are handed

While the events of a step are handed out, one can keep a record of which listener is handed which
event and whether its watch goes on then. A watch is handed those of the events that concern it, in
their order and once each, up to the first after which it ends; what the other watches do with the
events does not matter to it.
-/

namespace Coordination

/-- An event that is handed to a listener, and whether its watch goes on. -/
structure Hearing where
  listener : Listener
  event : Event
  goesOn : Bool
  deriving DecidableEq, Repr

/-- What one listener was handed, and whether its watch went on then. -/
def toldTo (l : Listener) (hearings : List Hearing) : List (Event × Bool) :=
  (hearings.filter (·.listener = l)).map fun h => (h.event, h.goesOn)

theorem toldTo_append (l : Listener) (hs hs' : List Hearing) :
    toldTo l (hs ++ hs') = toldTo l hs ++ toldTo l hs' := by
  simp [toldTo]

theorem toldTo_of_forall_ne {l : Listener} {hearings : List Hearing}
    (h : ∀ k ∈ hearings, k.listener ≠ l) : toldTo l hearings = [] := by
  simp only [toldTo, List.map_eq_nil_iff, List.filter_eq_nil_iff]
  intro k hk
  simpa using h k hk

/-- What a listener is told at some point stands in the record, behind what it was told before. -/
theorem exists_of_toldTo_eq_append {l : Listener} {hearings : List Hearing}
    {before after : List (Event × Bool)} {e : Event} {goesOn : Bool}
    (h : toldTo l hearings = before ++ (e, goesOn) :: after) :
    ∃ hs hs', hearings = hs ++ ⟨l, e, goesOn⟩ :: hs' ∧ toldTo l hs = before := by
  simp only [toldTo] at h
  obtain ⟨hs₁, hs₂, hsplit, hbefore, hrest⟩ := List.map_eq_append_iff.1 h
  obtain ⟨k, hs₃, rfl, hk, -⟩ := List.map_eq_cons_iff.1 hrest
  obtain ⟨hs, hs', rfl, rfl, hcons⟩ := List.filter_eq_append_iff.1 hsplit
  obtain ⟨skipped, hs'', rfl, hskipped, hlistener, -⟩ := List.filter_eq_cons_iff.1 hcons
  obtain ⟨listener, event, b⟩ := k
  obtain rfl : listener = l := by simpa using hlistener
  obtain ⟨rfl, rfl⟩ := Prod.mk.inj hk
  refine ⟨hs ++ skipped, hs'', by simp, ?_⟩
  have hnone : toldTo listener skipped = [] :=
    toldTo_of_forall_ne fun k hk => by simpa using hskipped k hk
  rw [toldTo_append, hnone, List.append_nil]
  exact hbefore

/-- Of what is due a watch is told everything and goes on, or everything up to an event after which
it ends. -/
inductive Heard : (due : List Event) → (told : List (Event × Bool)) → (goesOn : Bool) → Prop
  | fully (due : List Event) : Heard due (due.map (·, true)) true
  | upTo (before : List Event) (last : Event) (after : List Event) :
    Heard (before ++ last :: after) (before.map (·, true) ++ [(last, false)]) false

namespace Heard

variable {due due' : List Event} {told told' : List (Event × Bool)} {goesOn : Bool}

theorem of_nil (h : Heard [] told goesOn) : told = [] ∧ goesOn = true := by
  generalize hdue : [] = due at h
  cases h with
  | fully => exact ⟨by rw [← hdue]; rfl, rfl⟩
  | upTo before last after => simp at hdue

theorem cons (e : Event) (h : Heard due told goesOn) :
    Heard (e :: due) ((e, true) :: told) goesOn := by
  cases h with
  | fully => exact .fully (e :: due)
  | upTo before last after => exact .upTo (e :: before) last after

/-- A watch that goes on was told everything. -/
theorem told_eq (h : Heard due told true) : told = due.map (·, true) := by
  cases h
  rfl

/-- Where a watch goes on, it is told of what is due next. -/
theorem append (h : Heard due told true) (h' : Heard due' told' goesOn) :
    Heard (due ++ due') (told ++ told') goesOn := by
  cases h
  induction due with
  | nil => exact h'
  | cons e due ih => exact ih.cons e

/-- Where a watch has ended, it is told nothing more. -/
theorem append_late (h : Heard due told false) (late : List Event) :
    Heard (due ++ late) told false := by
  cases h with
  | upTo before last after =>
    rw [List.append_assoc, List.cons_append]
    exact .upTo before last (after ++ late)

end Heard

namespace Session

variable {s : Session} {l : Listener} {w : Watch} {events : List Event}

/-! ## The record of a delivery -/

/-- What the listener of a watch is handed of some events until the watch ends. -/
def hearings (w : Watch) : List Event → Session → List Hearing
  | [], _ => []
  | e :: rest, s =>
    if e.concerns w.path then
      match s.hear w.listener e with
      | (true, s) => ⟨w.listener, e, true⟩ :: hearings w rest s
      | (false, _) => [⟨w.listener, e, false⟩]
    else hearings w rest s

/-- What the listeners of several watches are handed, one watch after the other. -/
def allHearings : List Watch → List Event → Session → List Hearing
  | [], _, _ => []
  | w :: watches, events, s =>
    hearings w events s ++ allHearings watches events (deliverTo w events s)

/-- Listeners are handed events one after the other, and a watch ends where its listener says so. -/
inductive Handed : Session → List Hearing → Session → Prop
  | none (s : Session) : Handed s [] s
  | goesOn {s s' s'' : Session} {l : Listener} {e : Event} {rest : List Hearing}
    (hear : s.hear l e = (true, s')) (then_ : Handed s' rest s'') :
    Handed s (⟨l, e, true⟩ :: rest) s''
  | ends {s s' s'' : Session} {l : Listener} {e : Event} {rest : List Hearing}
    (hear : s.hear l e = (false, s')) (then_ : Handed (s'.release l) rest s'') :
    Handed s (⟨l, e, false⟩ :: rest) s''

theorem Handed.append {s s' s'' : Session} {hs hs' : List Hearing} (h : Handed s hs s')
    (h' : Handed s' hs' s'') : Handed s (hs ++ hs') s'' := by
  induction h with
  | none s => exact h'
  | goesOn hear _ ih => exact .goesOn hear (ih h')
  | ends hear _ ih => exact .ends hear (ih h')

theorem Handed.exists_of_append {s s' : Session} {hs hs' : List Hearing} {l : Listener}
    {e : Event} (h : Handed s (hs ++ ⟨l, e, true⟩ :: hs') s') :
    ∃ s₁ s₂, Handed s hs s₁ ∧ s₁.hear l e = (true, s₂) ∧ Handed s₂ hs' s' := by
  induction hs generalizing s with
  | nil =>
    cases h with
    | goesOn hear rest => exact ⟨s, _, .none s, hear, rest⟩
  | cons k hs ih =>
    cases h with
    | goesOn hear rest =>
      obtain ⟨s₁, s₂, hbefore, hhear, hafter⟩ := ih rest
      exact ⟨s₁, s₂, .goesOn hear hbefore, hhear, hafter⟩
    | ends hear rest =>
      obtain ⟨s₁, s₂, hbefore, hhear, hafter⟩ := ih rest
      exact ⟨s₁, s₂, .ends hear hbefore, hhear, hafter⟩

/-- The record of a delivery is what happens in it. -/
theorem handed_deliverTo (w : Watch) (events : List Event) (s : Session) :
    Handed s (hearings w events s) (deliverTo w events s) := by
  induction events generalizing s with
  | nil => exact .none s
  | cons e rest ih =>
    rw [hearings, deliverTo]
    by_cases hconcerns : e.concerns w.path = true
    · simp only [if_pos hconcerns]
      rcases hhear : s.hear w.listener e with ⟨_ | _, s'⟩
      · exact .ends hhear (.none _)
      · exact .goesOn hhear (ih s')
    · simp only [if_neg hconcerns]
      exact ih s

theorem handed_foldl (watches : List Watch) (events : List Event) (s : Session) :
    Handed s (allHearings watches events s)
      (watches.foldl (fun s w => deliverTo w events s) s) := by
  induction watches generalizing s with
  | nil => exact .none s
  | cons w watches ih => exact (handed_deliverTo w events s).append (ih _)

/-! ## The watches of a listener -/

theorem hears_iff : s.hears l = true ↔ s.watchesOf l ≠ [] := by
  simp [hears, watchesOf, List.filter_eq_nil_iff]

theorem hears_eq_false_iff : s.hears l = false ↔ s.watchesOf l = [] := by
  simp [hears, watchesOf, List.filter_eq_nil_iff]

/-! ## One delivery -/

theorem listener_of_mem_hearings {h : Hearing} (hh : h ∈ hearings w events s) :
    h.listener = w.listener := by
  induction events generalizing s with
  | nil => cases hh
  | cons e rest ih =>
    rw [hearings] at hh
    by_cases hconcerns : e.concerns w.path = true
    · simp only [if_pos hconcerns] at hh
      rcases hhear : s.hear w.listener e with ⟨_ | _, s'⟩
      · rw [hhear] at hh
        obtain rfl := List.mem_singleton.1 hh
        rfl
      · rw [hhear] at hh
        rcases List.mem_cons.1 hh with rfl | hh
        · rfl
        · exact ih hh
    · simp only [if_neg hconcerns] at hh
      exact ih hh

/-- A watch hears of the events that concern it, and it is there as long as it goes on. -/
theorem heard_deliverTo (w : Watch) (events : List Event) (s : Session) :
    ∃ goesOn, Heard (events.filter (·.concerns w.path))
        (toldTo w.listener (hearings w events s)) goesOn ∧
      (deliverTo w events s).watchesOf w.listener =
        if goesOn then s.watchesOf w.listener else [] := by
  induction events generalizing s with
  | nil => exact ⟨true, .fully [], rfl⟩
  | cons e rest ih =>
    rw [hearings, deliverTo]
    by_cases hconcerns : e.concerns w.path = true
    · have hfilter : (e :: rest).filter (·.concerns w.path) =
          e :: rest.filter (·.concerns w.path) := List.filter_cons_of_pos hconcerns
      simp only [if_pos hconcerns, hfilter]
      have hwatches := (hear_frame w.listener e s).2
      rcases hhear : s.hear w.listener e with ⟨_ | _, s'⟩
      · refine ⟨false, ?_, ?_⟩
        · simpa [toldTo] using Heard.upTo [] e (rest.filter (·.concerns w.path))
        · simp [watchesOf_release]
      · rw [hhear] at hwatches
        obtain ⟨goesOn, hheard, hkept⟩ := ih s'
        refine ⟨goesOn, ?_, ?_⟩
        · simpa [toldTo] using hheard.cons e
        · rw [hkept, watchesOf_congr hwatches]
    · have hfilter : (e :: rest).filter (·.concerns w.path) =
          rest.filter (·.concerns w.path) := List.filter_cons_of_neg hconcerns
      simp only [if_neg hconcerns, hfilter]
      exact ih s

/-- A delivery to another watch tells a listener nothing and leaves its watches alone. -/
theorem deliverTo_of_ne (hne : w.listener ≠ l) (events : List Event) (s : Session) :
    toldTo l (hearings w events s) = [] ∧ (deliverTo w events s).watchesOf l = s.watchesOf l := by
  constructor
  · refine toldTo_of_forall_ne fun h hh => ?_
    rw [listener_of_mem_hearings hh]
    exact hne
  · refine deliverTo_preserves (R := fun s s' => s'.watchesOf l = s.watchesOf l)
      (fun _ => rfl) (fun _ _ _ h h' => h'.trans h) ?_ ?_ events s
    · intro e s _
      exact watchesOf_congr (hear_frame w.listener e s).2 l
    · intro e s _
      rw [watchesOf_release, if_neg (Ne.symm hne)]
      exact watchesOf_congr (hear_frame w.listener e s).2 l

/-! ## The deliveries of a step -/

theorem foldl_of_forall_ne {watches : List Watch} (h : ∀ w ∈ watches, w.listener ≠ l)
    (events : List Event) (s : Session) :
    toldTo l (allHearings watches events s) = [] ∧
      (watches.foldl (fun s w => deliverTo w events s) s).watchesOf l = s.watchesOf l := by
  induction watches generalizing s with
  | nil => exact ⟨rfl, rfl⟩
  | cons w watches ih =>
    obtain ⟨hw, hwatches⟩ := List.forall_mem_cons.1 h
    obtain ⟨htold, hkept⟩ := deliverTo_of_ne hw events s
    obtain ⟨htold', hkept'⟩ := ih hwatches (deliverTo w events s)
    refine ⟨?_, hkept'.trans hkept⟩
    rw [allHearings, toldTo_append, htold, htold']
    rfl

/-- Among several watches the only one of its listener hears of what it would hear alone. -/
theorem heard_foldl {watches : List Watch}
    (h : watches.filter (·.listener = w.listener) = [w]) (events : List Event) (s : Session) :
    ∃ goesOn, Heard (events.filter (·.concerns w.path))
        (toldTo w.listener (allHearings watches events s)) goesOn ∧
      (watches.foldl (fun s w => deliverTo w events s) s).watchesOf w.listener =
        if goesOn then s.watchesOf w.listener else [] := by
  induction watches generalizing s with
  | nil => cases h
  | cons v watches ih =>
    by_cases hlistener : v.listener = w.listener
    · rw [List.filter_cons_of_pos (by simpa using hlistener), List.cons.injEq] at h
      obtain ⟨rfl, hothers⟩ := h
      have hne : ∀ u ∈ watches, u.listener ≠ v.listener := by
        simpa using List.filter_eq_nil_iff.1 hothers
      obtain ⟨goesOn, hheard, hkept⟩ := heard_deliverTo v events s
      obtain ⟨htold, hkept'⟩ := foldl_of_forall_ne hne events (deliverTo v events s)
      refine ⟨goesOn, ?_, hkept'.trans hkept⟩
      rw [allHearings, toldTo_append, htold, List.append_nil]
      exact hheard
    · rw [List.filter_cons_of_neg (by simpa using hlistener)] at h
      obtain ⟨htold, hkept⟩ := deliverTo_of_ne hlistener events s
      obtain ⟨goesOn, hheard, hkept'⟩ := ih h (deliverTo v events s)
      refine ⟨goesOn, ?_, ?_⟩
      · rw [allHearings, toldTo_append, htold]
        exact hheard
      · rw [List.foldl_cons, hkept', hkept]

/-! ## Steps -/

/-- The events that wait when a step has acted. Between the steps of a run none does, so that
these are the events of the step. -/
def emitted (x : Step) (s : Session) : List Event := (s.act x).2.work.service.events

/-- What listeners are handed after a step. -/
def stepHearings (x : Step) (s : Session) : List Hearing :=
  allHearings (s.act x).2.watches (recent (s.emitted x)) (s.act x).2.hushed

/-- After a step acts, all that happens is that listeners are handed events. -/
theorem handed_step (x : Step) (s : Session) :
    Handed (s.act x).2.hushed (s.stepHearings x) (s.step x).2 := handed_foldl _ _ _

/-- The only watch of a listener hears of the events of a step that there is room for. -/
theorem heard_step {x : Step} (h : (s.act x).2.watchesOf w.listener = [w]) :
    ∃ goesOn, Heard ((recent (s.emitted x)).filter (·.concerns w.path))
        (toldTo w.listener (s.stepHearings x)) goesOn ∧
      (s.step x).2.watchesOf w.listener = if goesOn then [w] else [] := by
  obtain ⟨goesOn, hheard, hkept⟩ := heard_foldl h (recent (s.emitted x)) (s.act x).2.hushed
  have hsame : (s.act x).2.hushed.watchesOf w.listener = [w] := h
  rw [hsame] at hkept
  exact ⟨goesOn, hheard, hkept⟩

/-- A listener without a watch is told nothing. -/
theorem silent_step {x : Step} (h : (s.act x).2.watchesOf l = []) :
    toldTo l (s.stepHearings x) = [] ∧ (s.step x).2.watchesOf l = [] := by
  have hne : ∀ w ∈ (s.act x).2.watches, w.listener ≠ l := by
    simpa using List.filter_eq_nil_iff.1 h
  obtain ⟨htold, hkept⟩ := foldl_of_forall_ne hne (recent (s.emitted x)) (s.act x).2.hushed
  exact ⟨htold, hkept.trans h⟩

end Session

end Coordination
