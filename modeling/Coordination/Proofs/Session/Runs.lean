import Coordination.Session.Step

/-!
# Runs of a session

A run does one step after another; each step acts, and then all watches hear of what it
caused. What a watch does with an event leaves the coordinator and the list of watches alone,
but that a watch may end. While the coordinator is there its own watches never do.

Between two steps all watches have heard of everything: nothing is said of events that are on
their way while the next step acts.
-/

namespace Coordination

namespace Session

variable {s : Session} {c : Coordinator}

/-- The session after a run. -/
def after (steps : List Step) (s : Session) : Session :=
  steps.foldl (fun s step => (s.step step).2) s

/-- The steps of a run, with what they answer. -/
def transcript : List Step → Session → List (Step × Answer)
  | [], _ => []
  | x :: steps, s => (x, (s.step x).1) :: transcript steps (s.step x).2

theorem after_concat (s : Session) (steps : List Step) (x : Step) :
    s.after (steps ++ [x]) = ((s.after steps).step x).2 := by
  simp [after]

theorem transcript_concat (s : Session) (steps : List Step) (x : Step) :
    s.transcript (steps ++ [x]) = s.transcript steps ++ [(x, ((s.after steps).step x).1)] := by
  induction steps generalizing s with
  | nil => rfl
  | cons y steps ih => exact congrArg ((y, (s.step y).1) :: ·) (ih (s.step y).2)

/-- The watches of the coordinator under a key. -/
def held (key : String) (s : Session) : List Watch :=
  s.watches.filter (·.listener = .coordinator key)

/-- The watches of a listener. -/
def watchesOf (l : Listener) (s : Session) : List Watch := s.watches.filter (·.listener = l)

theorem watchesOf_congr {s s' : Session} (h : s'.watches = s.watches) (l : Listener) :
    s'.watchesOf l = s.watchesOf l := congrArg (List.filter _) h

theorem watchesOf_release (l l' : Listener) (s : Session) :
    (s.release l').watchesOf l = if l = l' then [] else s.watchesOf l := by
  rw [watchesOf, release, List.filter_filter]
  by_cases h : l = l'
  · rw [if_pos h, List.filter_eq_nil_iff]
    intro w _
    simp [h]
  · rw [if_neg h, watchesOf]
    refine List.filter_congr ?_
    intro w _
    by_cases hw : w.listener = l <;> simp [hw, h]

theorem watchesOf_install (w : Watch) (l : Listener) (s : Session) :
    (s.install w).watchesOf l = s.watchesOf l ++ if w.listener = l then [w] else [] := by
  rw [watchesOf, install, List.filter_append, watchesOf]
  by_cases h : w.listener = l <;> simp [h]

theorem watchesOf_releaseCoordinator (l : Listener) (s : Session) :
    s.releaseCoordinator.watchesOf l =
      match l with
      | .recorder _ => s.watchesOf l
      | .coordinator _ => [] := by
  rw [watchesOf, releaseCoordinator, List.filter_filter]
  cases l with
  | recorder name =>
    refine List.filter_congr ?_
    intro w _
    by_cases hw : w.listener = .recorder name <;> simp [hw]
  | coordinator key =>
    rw [List.filter_eq_nil_iff]
    intro w _
    by_cases hw : w.listener = .coordinator key <;> simp [hw]

/-! ## What hearing of events leaves alone -/

theorem reloadNow_frame (key : String) (c : Coordinator) (s : Session) :
    (s.reloadNow key c).2 = { s with work := (s.reloadNow key c).2.work } := by
  rw [reloadNow]
  cases c.rules.get? key with
  | none => rfl
  | some rule => rfl

theorem react_frame (key : String) (e : Event) (s : Session) :
    (s.react key e).2 = { s with work := (s.react key e).2.work } := by
  unfold react
  split
  · rfl
  · split
    · rfl
    · exact reloadNow_frame key _ s

/-- The handlers of a coordinator that is there never end their watches. -/
theorem react_goes_on (h : s.coordinator = some c) (key : String) (e : Event) :
    (s.react key e).1 = true := by
  rw [react, h]
  by_cases hlost : e.kind = .disconnected
  · simp only [if_pos hlost]
  · simp only [if_neg hlost]

theorem hear_frame (l : Listener) (e : Event) (s : Session) :
    (s.hear l e).2.coordinator = s.coordinator ∧ (s.hear l e).2.watches = s.watches := by
  cases l with
  | recorder name =>
    rw [hear]
    cases s.recorders.get? name with
    | none => exact ⟨rfl, rfl⟩
    | some r => exact ⟨rfl, rfl⟩
  | coordinator key =>
    have hreact := react_frame key e s
    have hcoordinator : (s.react key e).2.coordinator = s.coordinator := by rw [hreact]
    have hwatches : (s.react key e).2.watches = s.watches := by rw [hreact]
    exact ⟨hcoordinator, hwatches⟩

theorem runReload_now (key : String) (c : Coordinator) (s : Session) :
    (s.runReload (.now key) c).2 = (s.reloadNow key c).2 := by
  rw [runReload]
  rcases s.reloadNow key c with ⟨e | outcome, s'⟩ <;> rfl

theorem held_congr {s s' : Session} (h : s'.watches = s.watches) (key : String) :
    s'.held key = s.held key := watchesOf_congr h (.coordinator key)

theorem held_release_recorder (name key : String) (s : Session) :
    (s.release (.recorder name)).held key = s.held key :=
  (watchesOf_release (.coordinator key) (.recorder name) s).trans (if_neg (by simp))

/-! ## What a delivery preserves -/

section

variable {R : Session → Session → Prop} {events : List Event}

/-- What each event that a watch hears of preserves, and its end, all of them preserve. -/
theorem deliverTo_preserves {w : Watch} (hrefl : ∀ s, R s s)
    (htrans : ∀ s s' s'', R s s' → R s' s'' → R s s'')
    (hgoes : ∀ e s, (s.hear w.listener e).1 = true → R s (s.hear w.listener e).2)
    (hends : ∀ e s, (s.hear w.listener e).1 = false →
      R s ((s.hear w.listener e).2.release w.listener)) (events : List Event) (s : Session) :
    R s (deliverTo w events s) := by
  induction events generalizing s with
  | nil => exact hrefl s
  | cons e rest ih =>
    rw [deliverTo]
    by_cases hconcerns : e.concerns w.path = true
    · rw [if_pos hconcerns]
      have hgoes := hgoes e s
      have hends := hends e s
      cases hhear : s.hear w.listener e with
      | mk goesOn s' =>
        rw [hhear] at hgoes hends
        cases goesOn with
        | true => exact htrans s s' _ (hgoes rfl) (ih s')
        | false => exact hends rfl
    · rw [if_neg hconcerns]
      exact ih s

/-- What the deliveries to single watches preserve, the delivery to all of them preserves. -/
theorem foldl_deliverTo_preserves {watches : List Watch} (hrefl : ∀ s, R s s)
    (htrans : ∀ s s' s'', R s s' → R s' s'' → R s s'')
    (hdeliver : ∀ w ∈ watches, ∀ s, R s (deliverTo w events s)) (s : Session) :
    R s (watches.foldl (fun s w => deliverTo w events s) s) := by
  induction watches generalizing s with
  | nil => exact hrefl s
  | cons w watches ih =>
    obtain ⟨hw, hwatches⟩ := List.forall_mem_cons.1 hdeliver
    exact htrans s _ _ (hw s) (ih hwatches _)

end

/-- The coordinator is the same, and if it is there, so are its watches. -/
def Keeps (s s' : Session) : Prop :=
  s'.coordinator = s.coordinator ∧
    ∀ c, s.coordinator = some c → ∀ key, s'.held key = s.held key

theorem Keeps.refl (s : Session) : Keeps s s := ⟨rfl, fun _ _ _ => rfl⟩

theorem Keeps.trans (s s' s'' : Session) (h : Keeps s s') (h' : Keeps s' s'') :
    Keeps s s'' :=
  ⟨h'.1.trans h.1, fun c hc key => (h'.2 c (h.1.trans hc) key).trans (h.2 c hc key)⟩

theorem keeps_deliverTo (w : Watch) (events : List Event) (s : Session) :
    Keeps s (deliverTo w events s) := by
  refine deliverTo_preserves Keeps.refl Keeps.trans ?_ ?_ events s
  · intro e s _
    obtain ⟨hcoordinator, hwatches⟩ := hear_frame w.listener e s
    exact ⟨hcoordinator, fun _ _ key => held_congr hwatches key⟩
  · intro e s hends
    obtain ⟨hcoordinator, hwatches⟩ := hear_frame w.listener e s
    refine ⟨hcoordinator, fun c hc key => ?_⟩
    cases hlistener : w.listener with
    | recorder name =>
      rw [hlistener] at hwatches
      exact (held_release_recorder name key _).trans (held_congr hwatches key)
    | coordinator key' =>
      have hgoes : (s.hear w.listener e).1 = true := by
        rw [hlistener]
        exact react_goes_on hc key' e
      rw [hends] at hgoes
      exact absurd hgoes Bool.false_ne_true

/-- The session with all events taken from the service. -/
def hushed (s : Session) : Session :=
  { s with work := { s.work with service := { s.work.service with events := [] } } }

theorem settle_eq (s : Session) : s.settle =
    s.watches.foldl (fun s' w => deliverTo w (recent s.work.service.events) s') s.hushed := rfl

theorem keeps_settle (s : Session) : Keeps s.hushed s.settle :=
  foldl_deliverTo_preserves Keeps.refl Keeps.trans
    (fun w _ => keeps_deliverTo w (recent s.work.service.events)) s.hushed

/-- When the watches have heard of a step, the coordinator is as the step left it. -/
theorem coordinator_settle (s : Session) : s.settle.coordinator = s.coordinator :=
  (keeps_settle s).1

/-- The watches of a coordinator that is there are as the step left them, too. -/
theorem held_settle (h : s.coordinator = some c) (key : String) :
    s.settle.held key = s.held key := (keeps_settle s).2 c h key

end Session

end Coordination
