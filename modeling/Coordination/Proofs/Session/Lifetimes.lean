import Coordination.Proofs.Session.Hearings
import Coordination.Proofs.Session.LiveReload

/-!
# From its installation to its end

A watch is there from the step that installs it until its listener says that it ends, or a step
stops it. In between it is handed all events that concern it, as far as there is room for those of
one step, and afterwards nothing. Being told to go on does not end a watch.
-/

namespace Coordination

namespace Step

/-- The watch that a step asks for. -/
def installed? : Step → Option Watch
  | .watch name path _ => some ⟨path, .recorder name⟩
  | .reload (.watch rule) => some ⟨rule.watch, .coordinator rule.watch⟩
  | _ => none

/-- Whether the step ends the watch of a listener, by a stop or because nobody can stop it any
more. Of one name or key there is one watch, so that a new one ends the old. -/
def ends : Listener → Step → Bool
  | .recorder name, .stop name' signal => name' = name && signal ≠ .goOn
  | .recorder name, .watch name' path _ => name' = name && Path.isValid path
  | .coordinator key, .reload (.watch rule) => rule.watch = key
  | .coordinator key, .reload (.unwatch key') => key' = key
  | .coordinator _, .reload .shutdown | .coordinator _, .dropCoordinator => true
  | _, _ => false

end Step

/-- The step is done and has installed a watch of the listener. -/
def Installs (l : Listener) (p : Step × Answer) : Prop :=
  (∃ w, p.1.installed? = some w ∧ w.listener = l) ∧ p.2 = .done

namespace Session

variable {s : Session} {l : Listener} {w : Watch} {x : Step}

/-! ## Who can stop a watch -/

/-- Somebody can stop the watch of a listener. -/
def Controls : Listener → Session → Prop
  | .recorder name, s => ∃ r, s.recorders.get? name = some r ∧ r.stoppable = true
  | .coordinator _, s => ∃ c, s.coordinator = some c

theorem Controls.congr {s' : Session} (h : Controls l s) (hrecorders : s'.recorders = s.recorders)
    (hcoordinator : s'.coordinator = s.coordinator) : Controls l s' := by
  cases l with
  | recorder name =>
    obtain ⟨r, hr, hstop⟩ := h
    exact ⟨r, by rw [hrecorders, hr], hstop⟩
  | coordinator key =>
    obtain ⟨c, hc⟩ := h
    exact ⟨c, hcoordinator.trans hc⟩

/-- All recorders are there and can be stopped as before, and so is the coordinator. -/
structure Steers (s s' : Session) : Prop where
  coordinator : s'.coordinator = s.coordinator
  recorder : ∀ name r, s.recorders.get? name = some r →
    ∃ r', s'.recorders.get? name = some r' ∧ r'.stoppable = r.stoppable

theorem Steers.refl (s : Session) : Steers s s := ⟨rfl, fun _ r hr => ⟨r, hr, rfl⟩⟩

theorem Steers.trans (s s' s'' : Session) (h : Steers s s') (h' : Steers s' s'') :
    Steers s s'' := by
  refine ⟨h'.coordinator.trans h.coordinator, fun name r hr => ?_⟩
  obtain ⟨r', hr', hstop'⟩ := h.recorder name r hr
  obtain ⟨r'', hr'', hstop''⟩ := h'.recorder name r' hr'
  exact ⟨r'', hr'', hstop''.trans hstop'⟩

/-- Changing what a recorder recorded leaves it as it is otherwise. -/
theorem Steers.insert {name : String} {r r' : Recorder} {s : Session}
    (hr : s.recorders.get? name = some r) (hstop : r'.stoppable = r.stoppable) :
    Steers s { s with recorders := s.recorders.insert name r' } := by
  refine ⟨rfl, fun name' r₀ hr₀ => ?_⟩
  by_cases hname : name' = name
  · subst hname
    obtain rfl : r = r₀ := Option.some.inj (hr.symm.trans hr₀)
    exact ⟨r', OrderedMap.get?_insert_self .., hstop⟩
  · exact ⟨r₀, by simp [OrderedMap.get?_insert, hname, hr₀], rfl⟩

theorem steers_react (key : String) (e : Event) (s : Session) : Steers s (s.react key e).2 := by
  rw [react_frame]
  exact ⟨rfl, fun _ r hr => ⟨r, hr, rfl⟩⟩

theorem steers_hear (l : Listener) (e : Event) (s : Session) : Steers s (s.hear l e).2 := by
  cases l with
  | recorder name =>
    rw [hear]
    cases hrecorder : s.recorders.get? name with
    | none => exact .refl s
    | some r => exact .insert hrecorder rfl
  | coordinator key =>
    exact (steers_react key e s).trans _ _ _ ⟨rfl, fun _ r hr => ⟨r, hr, rfl⟩⟩

theorem steers_settle (s : Session) : Steers s s.settle := by
  have hdeliver (w : Watch) (events : List Event) (s : Session) :
      Steers s (deliverTo w events s) := by
    refine deliverTo_preserves Steers.refl Steers.trans ?_ ?_ events s
    · intro e s _
      exact steers_hear w.listener e s
    · intro e s _
      exact (steers_hear w.listener e s).trans _ _ _ ⟨rfl, fun _ r hr => ⟨r, hr, rfl⟩⟩
  have hsettle : Steers s.hushed s.settle := foldl_deliverTo_preserves Steers.refl Steers.trans
    (fun w _ => hdeliver w (recent s.work.service.events)) s.hushed
  exact ⟨hsettle.coordinator, hsettle.recorder⟩

theorem Controls.steers {s s' : Session} (h : Controls l s) (hsteers : Steers s s') :
    Controls l s' := by
  cases l with
  | recorder name =>
    obtain ⟨r, hr, hstop⟩ := h
    obtain ⟨r', hr', hstop'⟩ := hsteers.recorder name r hr
    exact ⟨r', hr', hstop'.trans hstop⟩
  | coordinator key =>
    obtain ⟨c, hc⟩ := h
    exact ⟨c, hsteers.coordinator.trans hc⟩

/-! ## What a step leaves alone -/

/-- The watches of a listener are as before, and who could stop them still can. -/
structure Spares (l : Listener) (s s' : Session) : Prop where
  watches : s'.watchesOf l = s.watchesOf l
  controls : Controls l s → Controls l s'

theorem Spares.of_frame {s' : Session} (hwatches : s'.watches = s.watches)
    (hrecorders : s'.recorders = s.recorders) (hcoordinator : s'.coordinator = s.coordinator) :
    Spares l s s' :=
  ⟨watchesOf_congr hwatches l, fun h => h.congr hrecorders hcoordinator⟩

/-- A new recorder leaves the others alone. -/
theorem Spares.of_insert {s' : Session} {name : String} {r : Recorder}
    (hne : l ≠ .recorder name) (hwatches : s'.watchesOf l = s.watchesOf l)
    (hrecorders : s'.recorders = s.recorders.insert name r)
    (hcoordinator : s'.coordinator = s.coordinator) : Spares l s s' := by
  refine ⟨hwatches, fun h => ?_⟩
  cases l with
  | recorder name' =>
    obtain ⟨r', hr', hstop⟩ := h
    have hname : name' ≠ name := fun heq => hne (congrArg Listener.recorder heq)
    refine ⟨r', ?_, hstop⟩
    rw [hrecorders, OrderedMap.get?_insert, if_neg hname, hr']
  | coordinator key =>
    obtain ⟨c, hc⟩ := h
    exact ⟨c, hcoordinator.trans hc⟩

theorem spares_watch {name path : String} {keep : Option Nat}
    (hends : (Step.watch name path keep).ends l = false) :
    Spares l s (s.act (.watch name path keep)).2 := by
  simp only [act, watch]
  cases hpath : Tree.checkPath path with
  | error e => exact .of_frame rfl rfl rfl
  | ok u =>
    have hne : l ≠ .recorder name := by
      rintro rfl
      simp [Step.ends, Tree.isValid_of_checkPath hpath] at hends
    have hinstall := watchesOf_install ⟨path, .recorder name⟩ l (s.release (.recorder name))
    rw [watchesOf_release, if_neg hne, if_neg (Ne.symm hne), List.append_nil] at hinstall
    exact .of_insert hne hinstall rfl rfl

theorem spares_events (name : String) : Spares l s (s.act (.events name)).2 := by
  simp only [act, takeEvents]
  cases hr : s.recorders.get? name with
  | none => exact .of_frame rfl rfl rfl
  | some r => exact ⟨rfl, fun h => h.steers (.insert hr rfl)⟩

theorem spares_stop {name : String} {signal : StopSignal}
    (hends : (Step.stop name signal).ends l = false) :
    Spares l s (s.act (.stop name signal)).2 := by
  simp only [act, stopRecorder]
  cases s.recorders.get? name with
  | none => exact .of_frame rfl rfl rfl
  | some r =>
    dsimp only
    by_cases hstop : r.stoppable = true
    · rw [if_pos hstop]
      have hne (h : signal ≠ .goOn) : l ≠ .recorder name := by
        rintro rfl
        simp [Step.ends, h] at hends
      have hrelease (h : signal ≠ .goOn) :
          (s.release (.recorder name)).watchesOf l = s.watchesOf l := by
        rw [watchesOf_release, if_neg (hne h)]
      cases signal with
      | stop => exact ⟨hrelease (by simp), fun h => h.congr rfl rfl⟩
      | goOn => exact .of_frame rfl rfl rfl
      | drop => exact .of_insert (hne (by simp)) (hrelease (by simp)) rfl rfl
    · rw [if_neg hstop]
      exact .of_frame rfl rfl rfl

theorem spares_poke (path : String) (kind : EventKind) :
    Spares l s (s.act (.poke path kind)).2 := by
  have hreact : Spares l s (s.react path ⟨kind, path⟩).2 := by
    rw [react_frame]
    exact .of_frame rfl rfl rfl
  simp only [act]
  by_cases hhandler : s.handlers.contains path = true
  · rw [if_pos hhandler]
    exact hreact
  · rw [if_neg hhandler]
    exact .of_frame rfl rfl rfl

/-- Whether the watch of a rule can be installed or not, the old one is gone. -/
theorem watchRule_cases (rule : ReloadRule) (c : Coordinator) (s : Session) :
    (∃ e, (s.watchRule rule c).1 = .error e ∧
      (s.watchRule rule c).2.watches = (s.release (.coordinator rule.watch)).watches) ∨
    (s.watchRule rule c).1 = .ok () ∧
      (s.watchRule rule c).2.watches = ((s.release (.coordinator rule.watch)).install
        ⟨rule.watch, .coordinator rule.watch⟩).watches := by
  rw [watchRule]
  simp only
  rcases (s.release (.coordinator rule.watch)).work.service.acceptWatch rule.watch with
    ⟨e | ⟨⟩, service⟩
  · exact Or.inl ⟨_, rfl, rfl⟩
  · exact Or.inr ⟨rfl, rfl⟩

theorem runReload_watch (rule : ReloadRule) (c : Coordinator) (s : Session) :
    (s.runReload (.watch rule) c).2 = (s.watchRule rule c).2 ∧
      ((s.runReload (.watch rule) c).1 = .done ↔ (s.watchRule rule c).1 = .ok ()) := by
  rw [runReload]
  rcases s.watchRule rule c with ⟨e | ⟨⟩, s'⟩
  · exact ⟨rfl, by simp⟩
  · exact ⟨rfl, by simp⟩

theorem recorders_runReload (r : ReloadStep) (c : Coordinator) (s : Session) :
    (s.runReload r c).2.recorders = s.recorders := by
  cases r with
  | watch rule =>
    rw [(runReload_watch rule c s).1, watchRule]
    simp only
    rcases (s.release (.coordinator rule.watch)).work.service.acceptWatch rule.watch with
      ⟨e | ⟨⟩, service⟩ <;> rfl
  | update key rule =>
    rw [runReload, updateRule]
    by_cases hwatched : c.rules.contains key = true
    · simp only [if_pos hwatched]
    · simp only [if_neg hwatched]
  | now key =>
    rw [runReload_now, reloadNow_frame]
  | unwatch key | keys | isWatching key | rule key | shutdown => rfl

theorem watchesOf_runReload {q : ReloadStep} (hends : (Step.reload q).ends l = false)
    (c : Coordinator) : (s.runReload q c).2.watchesOf l = s.watchesOf l := by
  cases q with
  | watch rule =>
    have hne : l ≠ .coordinator rule.watch := by
      rintro rfl
      simp [Step.ends] at hends
    rw [(runReload_watch rule c s).1]
    rcases watchRule_cases rule c s with ⟨e, -, hwatches⟩ | ⟨-, hwatches⟩
    · rw [watchesOf_congr hwatches, watchesOf_release, if_neg hne]
    · rw [watchesOf_congr hwatches, watchesOf_install, watchesOf_release, if_neg hne,
        if_neg (Ne.symm hne), List.append_nil]
  | unwatch key =>
    have hne : l ≠ .coordinator key := by
      rintro rfl
      simp [Step.ends] at hends
    exact (watchesOf_release l (.coordinator key) s).trans (if_neg hne)
  | update key rule =>
    rw [runReload, updateRule]
    by_cases hwatched : c.rules.contains key = true
    · simp only [if_pos hwatched]
      rfl
    · simp only [if_neg hwatched]
  | now key =>
    have hnow : (s.runReload (.now key) c).2.watches = s.watches := by
      rw [runReload_now, reloadNow_frame]
    exact watchesOf_congr hnow l
  | shutdown =>
    cases l with
    | recorder name => exact watchesOf_releaseCoordinator (.recorder name) s
    | coordinator key => cases hends
  | keys | isWatching key | rule key => rfl

theorem spares_reload {q : ReloadStep} (hends : (Step.reload q).ends l = false) :
    Spares l s (s.act (.reload q)).2 := by
  cases hcoordinator : s.coordinator with
  | none =>
    rw [act, hcoordinator]
    exact .of_frame rfl rfl rfl
  | some c =>
    obtain ⟨c', hc', -⟩ := fate_act hcoordinator (x := .reload q) (by simp) ""
    rw [act_reload hcoordinator] at hc' ⊢
    refine ⟨watchesOf_runReload hends c, fun h => ?_⟩
    cases l with
    | recorder name =>
      obtain ⟨r, hr, hstop⟩ := h
      exact ⟨r, by rw [recorders_runReload, hr], hstop⟩
    | coordinator key => exact ⟨c', hc'⟩

/-- A step that does not end the watch of a listener leaves it alone. -/
theorem spares_act (hends : x.ends l = false) : Spares l s (s.act x).2 := by
  cases x with
  | watch name path keep => exact spares_watch hends
  | events name => exact spares_events name
  | stop name signal => exact spares_stop hends
  | registry r =>
    simp only [act, runRegistry]
    split <;> exact .of_frame rfl rfl rfl
  | poke path kind => exact spares_poke path kind
  | dropCoordinator =>
    cases l with
    | recorder name => exact ⟨watchesOf_releaseCoordinator (.recorder name) s, id⟩
    | coordinator key => cases hends
  | reload q => exact spares_reload hends
  | call c | size | dump | refuseWrites start | allowWrites | disconnect | fault f | active
  | handled => exact .of_frame rfl rfl rfl

/-! ## How watches end -/

/-- Whoever can stop a recorder ends its watch. -/
theorem stop_ends {name : String} {signal : StopSignal} (hsignal : signal ≠ .goOn) :
    (s.act (.stop name signal)).2.watchesOf (.recorder name) = [] ∨
      ¬ Controls (.recorder name) s ∧
        (s.act (.stop name signal)).2.watchesOf (.recorder name) =
          s.watchesOf (.recorder name) := by
  rw [act, stopRecorder, Controls]
  cases hrecorder : s.recorders.get? name with
  | none => exact Or.inr ⟨by simp, rfl⟩
  | some r =>
    dsimp only
    have hreleased : (s.release (.recorder name)).watchesOf (.recorder name) = [] := by
      rw [watchesOf_release, if_pos rfl]
    by_cases hstop : r.stoppable = true
    · rw [if_pos hstop]
      cases signal with
      | stop => exact Or.inl hreleased
      | goOn => exact absurd rfl hsignal
      | drop => exact Or.inl hreleased
    · rw [if_neg hstop]
      right
      refine ⟨?_, rfl⟩
      rintro ⟨r', hr', hstop'⟩
      obtain rfl : r = r' := Option.some.inj hr'
      exact hstop hstop'

/-- A coordinator ends a watch of its own, unless it installs the next one. -/
theorem reload_ends {q : ReloadStep} {key : String} {c : Coordinator}
    (hcoordinator : s.coordinator = some c)
    (hends : (Step.reload q).ends (.coordinator key) = true)
    (hnot : ¬ Installs (.coordinator key) (.reload q, (s.act (.reload q)).1)) :
    (s.act (.reload q)).2.watchesOf (.coordinator key) = [] := by
  rw [act_reload hcoordinator] at hnot ⊢
  cases q with
  | watch rule =>
    obtain rfl : rule.watch = key := by simpa [Step.ends] using hends
    obtain ⟨hafter, hiff⟩ := runReload_watch rule c s
    rcases watchRule_cases rule c s with ⟨e, -, hwatches⟩ | ⟨hok, -⟩
    · rw [hafter, watchesOf_congr hwatches, watchesOf_release, if_pos rfl]
    · exact absurd ⟨⟨_, rfl, rfl⟩, hiff.2 hok⟩ hnot
  | unwatch key' =>
    obtain rfl : key' = key := by simpa [Step.ends] using hends
    exact (watchesOf_release _ _ s).trans (if_pos rfl)
  | shutdown => exact watchesOf_releaseCoordinator (.coordinator key) s
  | _ => cases hends

/-- A step that ends the watch of a listener and installs no new one leaves none, unless nobody
can stop it. -/
theorem watchesOf_of_ends (hends : x.ends l = true) (hnot : ¬ Installs l (x, (s.act x).1)) :
    (s.act x).2.watchesOf l = [] ∨
      ¬ Controls l s ∧ (s.act x).2.watchesOf l = s.watchesOf l := by
  cases l with
  | recorder name =>
    cases x with
    | stop name' signal =>
      obtain ⟨rfl, hsignal⟩ : name' = name ∧ signal ≠ .goOn := by simpa [Step.ends] using hends
      exact stop_ends hsignal
    | watch name' path keep =>
      obtain ⟨rfl, hpath⟩ : name' = name ∧ Path.isValid path = true := by
        simpa [Step.ends] using hends
      have hcheck : Tree.checkPath path = .ok () := by rw [Tree.checkPath, if_pos hpath]
      refine absurd ⟨⟨_, rfl, rfl⟩, ?_⟩ hnot
      simp only [act, watch, hcheck]
    | _ => cases hends
  | coordinator key =>
    cases x with
    | reload q =>
      cases hcoordinator : s.coordinator with
      | none =>
        right
        rw [act, hcoordinator]
        refine ⟨?_, rfl⟩
        rintro ⟨c, hc⟩
        rw [hcoordinator] at hc
        cases hc
      | some c => exact Or.inl (reload_ends hcoordinator hends hnot)
    | dropCoordinator => exact Or.inl (watchesOf_releaseCoordinator (.coordinator key) s)
    | _ => cases hends

/-- Without an installation a listener without a watch gets none. -/
theorem watchesOf_of_none (hnone : s.watchesOf l = [])
    (hnot : ¬ Installs l (x, (s.act x).1)) : (s.act x).2.watchesOf l = [] := by
  cases hends : x.ends l with
  | false => rw [(spares_act hends).watches, hnone]
  | true =>
    rcases watchesOf_of_ends hends hnot with hgone | ⟨-, hsame⟩
    · exact hgone
    · rw [hsame, hnone]

/-! ## What an installation does -/

/-- A step has installed a watch: it is the only one of its listener, somebody can stop it, and
its installation caused no events. -/
structure HasInstalled (w : Watch) (s s' : Session) : Prop where
  watches : s'.watchesOf w.listener = [w]
  controls : Controls w.listener s'
  events : s'.work.service.events = s.work.service.events

theorem watchesOf_install_release (w : Watch) (s : Session) :
    ((s.release w.listener).install w).watchesOf w.listener = [w] := by
  rw [watchesOf_install, watchesOf_release, if_pos rfl, if_pos rfl, List.nil_append]

/-- A recorder is installed at a path of the tree. -/
theorem watch_of_done {name path : String} {keep : Option Nat}
    (hdone : (s.act (.watch name path keep)).1 = .done) :
    Path.isValid path = true ∧
      HasInstalled ⟨path, .recorder name⟩ s (s.act (.watch name path keep)).2 := by
  rw [act, watch] at hdone ⊢
  cases hpath : Tree.checkPath path with
  | error e =>
    rw [hpath] at hdone
    cases hdone
  | ok u =>
    exact ⟨Tree.isValid_of_checkPath hpath, watchesOf_install_release ⟨path, .recorder name⟩ s,
      ⟨_, OrderedMap.get?_insert_self .., rfl⟩, rfl⟩

theorem events_acceptWatch (path : String) (v : Service) :
    (v.acceptWatch path).2.events = v.events := by
  have haccept : (v.accept .watch path).2.events = v.events := by
    rw [Service.accept]
    split <;> rfl
  rw [Service.acceptWatch]
  rcases hresult : v.accept .watch path with ⟨e | ⟨⟩, v'⟩ <;>
  · rw [hresult] at haccept
    exact haccept

theorem events_watchRule (rule : ReloadRule) (c : Coordinator) (s : Session) :
    (s.watchRule rule c).2.work.service.events = s.work.service.events := by
  have hevents := events_acceptWatch rule.watch s.work.service
  have hwork : (s.release (.coordinator rule.watch)).work = s.work := rfl
  rw [watchRule]
  simp only [hwork]
  rcases haccept : s.work.service.acceptWatch rule.watch with ⟨e | ⟨⟩, v⟩ <;>
  · rw [haccept] at hevents
    exact hevents

/-- A watch of a rule is installed where there is a coordinator that keeps the rule. -/
theorem reload_watch_of_done {rule : ReloadRule}
    (hdone : (s.act (.reload (.watch rule))).1 = .done) :
    HasInstalled ⟨rule.watch, .coordinator rule.watch⟩ s
      (s.act (.reload (.watch rule))).2 := by
  cases hcoordinator : s.coordinator with
  | none =>
    rw [act, hcoordinator] at hdone
    cases hdone
  | some c =>
    have hcontrols : ∃ c', (s.act (.reload (.watch rule))).2.coordinator = some c' := by
      obtain ⟨c', hc', -⟩ := fate_watch hcoordinator rule ""
      exact ⟨c', hc'⟩
    rw [act_reload hcoordinator] at hdone hcontrols ⊢
    obtain ⟨hafter, hiff⟩ := runReload_watch rule c s
    rw [hafter] at hcontrols ⊢
    rcases watchRule_cases rule c s with ⟨e, herror, -⟩ | ⟨-, hwatches⟩
    · rw [hiff, herror] at hdone
      cases hdone
    · refine ⟨?_, hcontrols, events_watchRule rule c s⟩
      rw [watchesOf_congr hwatches]
      exact watchesOf_install_release ⟨rule.watch, .coordinator rule.watch⟩ s

/-- A step that installs a watch of a listener ends the one before. -/
theorem act_of_installed (hx : x.installed? = some w) (hdone : (s.act x).1 = .done) :
    x.ends w.listener = true ∧ HasInstalled w s (s.act x).2 := by
  cases x with
  | watch name path keep =>
    cases hx
    obtain ⟨hpath, hinstalled⟩ := watch_of_done hdone
    exact ⟨by simp [Step.ends, hpath], hinstalled⟩
  | reload r =>
    cases r with
    | watch rule =>
      cases hx
      exact ⟨by simp [Step.ends], reload_watch_of_done hdone⟩
    | _ => cases hx
  | _ => cases hx

/-! ## Runs -/

/-- The events of each step of a run. -/
def emissions : List Step → Session → List (List Event)
  | [], _ => []
  | x :: steps, s => s.emitted x :: emissions steps (s.step x).2

/-- What a listener is told in a run. -/
def told (l : Listener) : List Step → Session → List (Event × Bool)
  | [], _ => []
  | x :: steps, s => toldTo l (s.stepHearings x) ++ told l steps (s.step x).2

/-- The events of a run that concern a path, as far as there is room for those of one step. -/
def due (path : String) (steps : List Step) (s : Session) : List Event :=
  (s.emissions steps).flatMap fun events => (recent events).filter (·.concerns path)

theorem recent_of_length_le {events : List Event} (h : events.length ≤ eventRoom) :
    recent events = events := by
  rw [recent, Nat.sub_eq_zero_of_le h, List.drop_zero]

/-- Where there is room for all events, all of them are due. -/
theorem due_of_room {steps : List Step} (h : ∀ events ∈ s.emissions steps,
    events.length ≤ eventRoom) (path : String) :
    s.due path steps = (s.emissions steps).flatten.filter (·.concerns path) := by
  rw [due, List.filter_flatten, List.flatMap_def]
  refine congrArg List.flatten (List.map_congr_left fun events hevents => ?_)
  rw [recent_of_length_le (h events hevents)]

/-- A listener without a watch is told nothing until one is installed. -/
theorem silent_run {steps : List Step} (h : s.watchesOf l = [])
    (hnot : ∀ p ∈ s.transcript steps, ¬ Installs l p) :
    s.told l steps = [] ∧ (s.after steps).watchesOf l = [] := by
  induction steps generalizing s with
  | nil => exact ⟨rfl, h⟩
  | cons x steps ih =>
    obtain ⟨hx, hsteps⟩ := List.forall_mem_cons.1 hnot
    obtain ⟨htold, hnone⟩ := silent_step (watchesOf_of_none h hx)
    obtain ⟨htold', hnone'⟩ := ih hnone hsteps
    refine ⟨?_, hnone'⟩
    rw [told, htold, htold']
    rfl

theorem not_installs_of_kept {steps : List Step} (hkept : ∀ y ∈ steps, y.ends l = false) :
    ∀ p ∈ s.transcript steps, ¬ Installs l p := by
  induction steps generalizing s with
  | nil => simp [transcript]
  | cons x steps ih =>
    obtain ⟨hx, hsteps⟩ := List.forall_mem_cons.1 hkept
    refine List.forall_mem_cons.2 ⟨fun hinstalls => ?_, ih hsteps⟩
    obtain ⟨⟨w, hw, rfl⟩, hdone⟩ := hinstalls
    rw [(act_of_installed hw hdone).1] at hx
    cases hx

/-- As long as no step ends it, a watch hears of what is due. -/
theorem heard_run {steps : List Step} (h : s.watchesOf w.listener = [w])
    (hkept : ∀ y ∈ steps, y.ends w.listener = false) :
    ∃ goesOn, Heard (s.due w.path steps) (s.told w.listener steps) goesOn ∧
      (s.after steps).watchesOf w.listener = if goesOn then [w] else [] := by
  induction steps generalizing s with
  | nil => exact ⟨true, .fully [], h⟩
  | cons x steps ih =>
    obtain ⟨hx, hsteps⟩ := List.forall_mem_cons.1 hkept
    obtain ⟨goesOn, hheard, hwatch⟩ := heard_step ((spares_act hx).watches.trans h)
    cases goesOn with
    | true =>
      obtain ⟨goesOn', hheard', hwatch'⟩ := ih hwatch hsteps
      exact ⟨goesOn', hheard.append hheard', hwatch'⟩
    | false =>
      obtain ⟨hsilent, hnone⟩ := silent_run hwatch (not_installs_of_kept hsteps)
      refine ⟨false, ?_, hnone⟩
      rw [told, hsilent, List.append_nil]
      exact hheard.append_late _

theorem controls_run {steps : List Step} (h : Controls l s)
    (hkept : ∀ y ∈ steps, y.ends l = false) : Controls l (s.after steps) := by
  induction steps generalizing s with
  | nil => exact h
  | cons x steps ih =>
    obtain ⟨hx, hsteps⟩ := List.forall_mem_cons.1 hkept
    exact ih (((spares_act hx).controls h).steers (steers_settle _)) hsteps

/-- A watch that a step of a run installs is handed exactly what it should be. In its own step it
is handed nothing. As long as no step ends it, its listener is told of the events that concern the
path, of each step as many as there is room for, in their order and once each, up to the first that
the listener says is the last; where there is always room, these are all events that concern the
path. Once the watch has ended, because its listener said so or by a step, the listener is told
nothing more until a new watch is installed for it. What listeners are told is what happens when
they are handed the events. -/
theorem watch_hears_what_is_due {templates : TemplateSet} (hs : s.Reached templates)
    (hx : x.installed? = some w) (hdone : (s.step x).1 = .done) (steps : List Step)
    (hkept : ∀ y ∈ steps, y.ends w.listener = false) :
    let s₁ := (s.step x).2
    let s₂ := s₁.after steps
    (∀ (s : Session) (y : Step), Handed (s.act y).2.hushed (s.stepHearings y) (s.step y).2) ∧
    s.told w.listener [x] = [] ∧
    Heard (s₁.due w.path steps) (s₁.told w.listener steps) (s₂.hears w.listener) ∧
    ((∀ events ∈ s₁.emissions steps, events.length ≤ eventRoom) →
      s₁.due w.path steps = (s₁.emissions steps).flatten.filter (·.concerns w.path)) ∧
    ∀ late, (s₂.hears w.listener = false ∨ ∃ y rest, late = y :: rest ∧
        y.ends w.listener = true) →
      (∀ p ∈ s₂.transcript late, ¬ Installs w.listener p) →
      s₂.told w.listener late = [] ∧ (s₂.after late).hears w.listener = false := by
  intro s₁ s₂
  obtain ⟨files, before, rfl⟩ := hs
  have hevents := (sound_after templates files before).2.2
  obtain ⟨-, hinstalled⟩ := act_of_installed hx hdone
  obtain ⟨goesOn, hheard, hwatch⟩ := heard_step hinstalled.watches
  rw [emitted, hinstalled.events, hevents] at hheard
  obtain ⟨htold, rfl⟩ := hheard.of_nil
  have hcontrols : Controls w.listener s₂ :=
    controls_run (hinstalled.controls.steers (steers_settle _)) hkept
  obtain ⟨goesOn, hheard, hwatch⟩ := heard_run hwatch hkept
  refine ⟨fun s y => handed_step y s, ?_, ?_, fun hroom => due_of_room hroom w.path, ?_⟩
  · rw [told, htold]
    rfl
  · have hhears : s₂.hears w.listener = goesOn := by
      cases goesOn with
      | true => exact hears_iff.2 (hwatch.trans_ne (List.cons_ne_nil _ _))
      | false => exact hears_eq_false_iff.2 hwatch
    rw [hhears]
    exact hheard
  · intro late hended hnot
    have hsilent : s₂.told w.listener late = [] ∧ (s₂.after late).watchesOf w.listener = [] := by
      rcases hended with hgone | ⟨y, rest, rfl, hends⟩
      · exact silent_run (hears_eq_false_iff.1 hgone) hnot
      · obtain ⟨hy, hrest⟩ := List.forall_mem_cons.1 hnot
        have hgone : (s₂.act y).2.watchesOf w.listener = [] := by
          rcases watchesOf_of_ends hends hy with hgone | ⟨huncontrolled, -⟩
          · exact hgone
          · exact absurd hcontrols huncontrolled
        obtain ⟨htold, hnone⟩ := silent_step hgone
        obtain ⟨htold', hnone'⟩ := silent_run hnone hrest
        refine ⟨?_, hnone'⟩
        rw [told, htold, htold']
        rfl
    exact ⟨hsilent.1, hears_eq_false_iff.2 hsilent.2⟩

end Session

/-! ## A watch for two events -/

namespace TwoEvents

/-- What is done after the watch is installed. -/
def steps : List Step :=
  [.call (.create "/a" []), .stop "w" .goOn, .call (.set "/a" [1]), .call (.set "/a" [2])]

/-- The watch hears of two of three events, and being told to go on does not end it. -/
theorem third_not_heard :
    let s := ((Session.start .standard .empty).step (.watch "w" "/a" (some 2))).2
    Heard (s.due "/a" steps) (s.told (.recorder "w") steps)
        ((s.after steps).hears (.recorder "w")) ∧
      s.due "/a" steps = [⟨.created, "/a"⟩, ⟨.changed, "/a"⟩, ⟨.changed, "/a"⟩] ∧
      s.told (.recorder "w") steps = [(⟨.created, "/a"⟩, true), (⟨.changed, "/a"⟩, false)] := by
  intro s
  have hreached : (Session.start .standard .empty).Reached .standard := ⟨_, [], rfl⟩
  have hdone : ((Session.start .standard .empty).step (.watch "w" "/a" (some 2))).1 = .done :=
    Answer.eq_of_isDone (by decide +kernel)
  obtain ⟨-, -, hheard, -, -⟩ :=
    Session.watch_hears_what_is_due hreached (w := ⟨"/a", .recorder "w"⟩) rfl hdone steps
      (by decide)
  exact ⟨hheard, by decide +kernel, by decide +kernel⟩

end TwoEvents

end Coordination
