import Coordination.Proofs.Session.Watches

/-!
# Delivery to one rule

When the events of a step are handed out, recorders leave the files, the tree and the log of
the coordinator alone, and so do handlers that none of the events concerns. If the last event,
and no other, concerns the watch of a rule, its cycle runs once.
-/

namespace Coordination

namespace Session

variable {s s' : Session} {c : Coordinator} {events : List Event}

/-- All is the same but for recorders and the watches that end. -/
structure Undisturbed (s s' : Session) : Prop where
  registry : s'.registry = s.registry
  work : s'.work = s.work
  coordinator : s'.coordinator = s.coordinator
  handled : s'.handled = s.handled

theorem Undisturbed.refl (s : Session) : Undisturbed s s := ⟨rfl, rfl, rfl, rfl⟩

theorem Undisturbed.trans (s s' s'' : Session) (h : Undisturbed s s') (h' : Undisturbed s' s'') :
    Undisturbed s s'' where
  registry := h'.registry.trans h.registry
  work := h'.work.trans h.work
  coordinator := h'.coordinator.trans h.coordinator
  handled := h'.handled.trans h.handled

theorem undisturbed_hear (name : String) (e : Event) (s : Session) :
    Undisturbed s (s.hear (.recorder name) e).2 := by
  rw [hear]
  cases s.recorders.get? name with
  | none => exact .refl s
  | some r => exact ⟨rfl, rfl, rfl, rfl⟩

theorem undisturbed_deliverTo_recorder (path name : String) (events : List Event)
    (s : Session) : Undisturbed s (deliverTo ⟨path, .recorder name⟩ events s) := by
  refine deliverTo_preserves Undisturbed.refl Undisturbed.trans ?_ ?_ events s
  · intro e s _
    exact undisturbed_hear name e s
  · intro e s _
    exact (undisturbed_hear name e s).trans _ _ _ ⟨rfl, rfl, rfl, rfl⟩

theorem deliverTo_of_unconcerned {w : Watch} (h : ∀ e ∈ events, ¬ e.concerns w.path = true)
    (s : Session) : deliverTo w events s = s := by
  induction events generalizing s with
  | nil => rfl
  | cons e rest ih =>
    obtain ⟨he, hrest⟩ := List.forall_mem_cons.1 h
    rw [deliverTo, if_neg he]
    exact ih hrest s

/-- The watch is one of a recorder, or none of the events concerns it. -/
def Spectates (events : List Event) (w : Watch) : Prop :=
  (∃ name, w.listener = .recorder name) ∨ ∀ e ∈ events, ¬ e.concerns w.path = true

theorem undisturbed_foldl {watches : List Watch} (h : ∀ w ∈ watches, Spectates events w)
    (s : Session) :
    Undisturbed s (watches.foldl (fun s w => deliverTo w events s) s) := by
  refine foldl_deliverTo_preserves Undisturbed.refl Undisturbed.trans ?_ s
  intro w hw s
  rcases h w hw with ⟨name, hname⟩ | hunconcerned
  · obtain ⟨path, listener⟩ := w
    obtain rfl : listener = .recorder name := hname
    exact undisturbed_deliverTo_recorder path name events s
  · rw [deliverTo_of_unconcerned hunconcerned]
    exact .refl s

/-- A handler that only the last event concerns runs one cycle. -/
theorem deliverTo_handler {key : String} {earlier : List Event} {last : Event}
    (h : s.coordinator = some c) (hearlier : ∀ e ∈ earlier, ¬ e.concerns key = true)
    (hpath : last.path = key) (hkind : last.kind ≠ .disconnected) :
    deliverTo ⟨key, .coordinator key⟩ (earlier ++ [last]) s =
      (s.reloadNow key c).2.logHandled key last true := by
  induction earlier with
  | nil =>
    have hconcerns : last.concerns key = true := by simp [Event.concerns, hpath]
    have hreact : s.react key last = (true, (s.reloadNow key c).2) := by
      simp [react, h, hkind]
    simp [deliverTo, hconcerns, hear, hreact]
  | cons e earlier ih =>
    obtain ⟨he, hrest⟩ := List.forall_mem_cons.1 hearlier
    rw [List.cons_append, deliverTo, if_neg he]
    exact ih hrest

theorem reloadNow_of_rule {key : String} {rule : ReloadRule} (h : c.rules.get? key = some rule)
    (s : Session) :
    (s.reloadNow key c).2 = { s with work := (rule.cycle s.registry s.work).2 } := by
  rw [reloadNow, h]

/-- What is handed out of a list that ends with an event ends with that event. -/
theorem exists_recent_concat (earlier : List Event) (last : Event) :
    ∃ kept, (∀ e ∈ kept, e ∈ earlier) ∧ recent (earlier ++ [last]) = kept ++ [last] := by
  have hroom : (earlier ++ [last]).length - eventRoom ≤ earlier.length := by
    rw [List.length_append, List.length_singleton, eventRoom]
    omega
  refine ⟨earlier.drop ((earlier ++ [last]).length - eventRoom), ?_, ?_⟩
  · intro e he
    exact List.mem_of_mem_drop he
  · rw [recent, List.drop_append_of_le_length hroom]

theorem not_concerns {e : Event} {path : String} (hlost : e.kind ≠ .disconnected)
    (hpath : e.path ≠ path) : ¬ e.concerns path = true := by
  simp [Event.concerns, hlost, hpath]

/-- Where no event concerns another rule, all watches but that of the rule only look on. -/
theorem spectates_of_ne {key : String} {w : Watch} (htidy : s.Tidy c)
    (hlost : ∀ e ∈ events, e.kind ≠ .disconnected)
    (hothers : ∀ key', key' ≠ key → c.rules.contains key' = true →
      ∀ e ∈ events, e.path ≠ key')
    (hw : w ∈ s.watches) (hne : w.listener ≠ .coordinator key) : Spectates events w := by
  cases hlistener : w.listener with
  | recorder name => exact Or.inl ⟨name, hlistener⟩
  | coordinator key' =>
    have hkey : key' ≠ key := by
      rintro rfl
      exact hne hlistener
    have hmem : w ∈ s.held key' := List.mem_filter.2 ⟨hw, by simp [hlistener]⟩
    rw [htidy key'] at hmem
    by_cases hcontains : c.rules.contains key' = true
    · rw [if_pos hcontains, List.mem_singleton] at hmem
      right
      intro e he
      rw [hmem]
      exact not_concerns (hlost e he) (hothers key' hkey hcontains e he)
    · rw [if_neg hcontains] at hmem
      exact absurd hmem List.not_mem_nil

/-- The watch of a rule stands between others, all of which only look on. -/
theorem exists_bystanders {key : String} (htidy : s.Tidy c)
    (hcontains : c.rules.contains key = true) (hlost : ∀ e ∈ events, e.kind ≠ .disconnected)
    (hothers : ∀ key', key' ≠ key → c.rules.contains key' = true →
      ∀ e ∈ events, e.path ≠ key') :
    ∃ before after, s.watches = before ++ ⟨key, .coordinator key⟩ :: after ∧
      (∀ w ∈ before, Spectates events w) ∧ ∀ w ∈ after, Spectates events w := by
  have hheld : s.held key = [⟨key, .coordinator key⟩] := by rw [htidy key, if_pos hcontains]
  obtain ⟨before, after, hwatches, hbefore, -, hafter⟩ := List.filter_eq_cons_iff.1 hheld
  refine ⟨before, after, hwatches, fun w hw => ?_, fun w hw => ?_⟩
  · have hmem : w ∈ s.watches := by
      rw [hwatches]
      exact List.mem_append_left _ hw
    exact spectates_of_ne htidy hlost hothers hmem (by simpa using hbefore w hw)
  · have hmem : w ∈ s.watches := by
      rw [hwatches]
      exact List.mem_append_right _ (List.mem_cons_of_mem _ hw)
    have hne := List.filter_eq_nil_iff.1 hafter w hw
    exact spectates_of_ne htidy hlost hothers hmem (by simpa using hne)

/-- If the last event is at the key of a rule and no other event is, and no event concerns
another rule, then the handler of the rule hears of this event only, and the cycle of the rule
runs once. -/
theorem settle_once {key : String} {rule : ReloadRule} {earlier : List Event} {last : Event}
    (hcoordinator : s.coordinator = some c) (htidy : s.Tidy c)
    (hrule : c.rules.get? key = some rule)
    (hevents : s.work.service.events = earlier ++ [last]) (hpath : last.path = key)
    (hlost : ∀ e ∈ earlier ++ [last], e.kind ≠ .disconnected)
    (hearlier : ∀ e ∈ earlier, e.path ≠ key)
    (hothers : ∀ key', key' ≠ key → c.rules.contains key' = true →
      ∀ e ∈ earlier ++ [last], e.path ≠ key') :
    s.settle.handled = s.handled.insert key
        ((s.handled.get? key).getD [] ++ [(last, true)]) ∧
      s.settle.work = (rule.cycle s.registry s.hushed.work).2 := by
  obtain ⟨kept, hkept, hrecent⟩ := exists_recent_concat earlier last
  have hsub : ∀ e ∈ kept ++ [last], e ∈ earlier ++ [last] := by
    intro e he
    rcases List.mem_append.1 he with he | he
    · exact List.mem_append_left _ (hkept e he)
    · exact List.mem_append_right _ he
  have hcontains : c.rules.contains key = true := by
    rw [OrderedMap.contains, hrule]
    rfl
  obtain ⟨before, after, hwatches, hbefore, hafter⟩ :=
    exists_bystanders htidy hcontains (fun e he => hlost e (hsub e he))
      fun key' hne hcontains e he => hothers key' hne hcontains e (hsub e he)
  have hfirst := undisturbed_foldl hbefore s.hushed
  rw [settle_eq, hevents, hrecent, hwatches, List.foldl_append, List.foldl_cons]
  generalize before.foldl (fun s w => deliverTo w (kept ++ [last]) s) s.hushed = s₁ at hfirst
  have hcoordinator₁ : s₁.coordinator = some c := hfirst.coordinator.trans hcoordinator
  have hunconcerned : ∀ e ∈ kept, ¬ e.concerns key = true := fun e he =>
    not_concerns (hlost e (List.mem_append_left _ (hkept e he))) (hearlier e (hkept e he))
  rw [deliverTo_handler hcoordinator₁ hunconcerned hpath (hlost last (by simp))]
  have hlast := undisturbed_foldl hafter ((s₁.reloadNow key c).2.logHandled key last true)
  have hreload := reloadNow_of_rule hrule s₁
  have hhandled : (s₁.reloadNow key c).2.handled = s.handled := by
    rw [hreload]
    exact hfirst.handled
  have hwork : (s₁.reloadNow key c).2.work = (rule.cycle s.registry s.hushed.work).2 := by
    have hregistry : s₁.registry = s.registry := hfirst.registry
    rw [hreload, hregistry, hfirst.work]
  refine ⟨hlast.handled.trans ?_, hlast.work.trans hwork⟩
  rw [logHandled, hhandled]

end Session

end Coordination
