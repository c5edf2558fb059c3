import Coordination.Proofs.OrderedMap
import Coordination.Proofs.Session.Runs
import Mathlib.Data.List.Induction

/-!
# One watch for each rule

The coordinator keeps its rules in a map and has its watches among those of the session. A step
does one of four things to a key: it leaves the key alone, installs its watch, changes its rule
only, or ends its watch. In each case the key is watched exactly if it has a rule, by one watch
on its own path; and what a rule is follows from what the steps were and answered. No event and
no failed cycle ends a watch of the coordinator while the coordinator is there.
-/

namespace Coordination

/-- Whether the step asks for watches of the coordinator to be installed or to end. -/
def Step.asksForWatches : Step → Bool
  | .reload (.watch _) | .reload (.unwatch _) | .reload .shutdown | .dropCoordinator => true
  | _ => false

namespace Session

variable {s : Session} {c : Coordinator} {x : Step} {key : String}

/-- What a step, by its answer, makes of the rule of a key: a rule, or none. -/
def ruleSet? (key : String) : Step × Answer → Option (Option ReloadRule)
  | (.reload (.watch rule), .done) => if rule.watch = key then some (some rule) else none
  | (.reload (.watch rule), _) => if rule.watch = key then some none else none
  | (.reload (.update key' rule), .flag true) => if key' = key then some (some rule) else none
  | (.reload (.unwatch key'), _) => if key' = key then some none else none
  | (.reload .shutdown, _) => some none
  | _ => none

/-- The rule of a key after a run, by what its steps were and answered: what the last of them
that concerned the key made of it. -/
def ruleOf (key : String) (log : List (Step × Answer)) : Option ReloadRule :=
  (log.filterMap (ruleSet? key)).getLast?.join

theorem ruleOf_concat (log : List (Step × Answer)) (p : Step × Answer) :
    ruleOf key (log ++ [p]) = (ruleSet? key p).getD (ruleOf key log) := by
  rw [ruleOf, List.filterMap_append]
  cases h : ruleSet? key p with
  | none => simp [h, ruleOf]
  | some rule => simp [h]

/-! ## The watches of a key -/

theorem held_release (k key : String) (s : Session) :
    (s.release (.coordinator k)).held key = if key = k then [] else s.held key := by
  refine (watchesOf_release (.coordinator key) (.coordinator k) s).trans ?_
  simp only [Listener.coordinator.injEq]
  rfl

theorem held_install (w : Watch) (key : String) (s : Session) :
    (s.install w).held key =
      s.held key ++ if w.listener = .coordinator key then [w] else [] :=
  watchesOf_install w (.coordinator key) s

theorem held_releaseCoordinator (key : String) (s : Session) :
    s.releaseCoordinator.held key = [] := watchesOf_releaseCoordinator (.coordinator key) s

/-! ## One step -/

/-- What a step does to a key: to its rule, and to its watches. -/
inductive Fate (s : Session) (c : Coordinator) (x : Step) (key : String) (answer : Answer)
    (s' : Session) (c' : Coordinator) : Prop where
  | untouched (sets : ruleSet? key (x, answer) = none)
    (rule : c'.rules.get? key = c.rules.get? key) (held : s'.held key = s.held key)
  | installed (r : ReloadRule) (asks : x.asksForWatches = true)
    (sets : ruleSet? key (x, answer) = some (some r))
    (rule : c'.rules.get? key = some r) (held : s'.held key = [⟨key, .coordinator key⟩])
  | updated (r : ReloadRule) (sets : ruleSet? key (x, answer) = some (some r))
    (watched : c.rules.contains key = true) (rule : c'.rules.get? key = some r)
    (held : s'.held key = s.held key)
  | ended (asks : x.asksForWatches = true) (sets : ruleSet? key (x, answer) = some none)
    (rule : c'.rules.get? key = none) (held : s'.held key = [])

/-- Steps of recorders, of the tree and of the registry do not reach the coordinator. -/
theorem act_frame (key : String) (hreload : ∀ r, x ≠ .reload r)
    (hdrop : x ≠ .dropCoordinator) :
    (s.act x).2.coordinator = s.coordinator ∧ (s.act x).2.held key = s.held key := by
  cases x with
  | reload r => exact absurd rfl (hreload r)
  | dropCoordinator => exact absurd rfl hdrop
  | watch name path keep =>
    have hinstall : ((s.release (.recorder name)).install ⟨path, .recorder name⟩).held key =
        s.held key := by
      rw [held_install, held_release_recorder]
      simp
    simp only [act, watch]
    cases Tree.checkPath path with
    | error e => exact ⟨rfl, rfl⟩
    | ok _ => exact ⟨rfl, hinstall⟩
  | events name =>
    simp only [act, takeEvents]
    cases s.recorders.get? name with
    | none => exact ⟨rfl, rfl⟩
    | some r => exact ⟨rfl, rfl⟩
  | stop name signal =>
    simp only [act, stopRecorder]
    cases s.recorders.get? name with
    | none => exact ⟨rfl, rfl⟩
    | some r =>
      dsimp only
      by_cases hstop : r.stoppable = true
      · rw [if_pos hstop]
        cases signal with
        | stop => exact ⟨rfl, held_release_recorder name key s⟩
        | goOn => exact ⟨rfl, rfl⟩
        | drop => exact ⟨rfl, held_release_recorder name key s⟩
      · rw [if_neg hstop]
        exact ⟨rfl, rfl⟩
  | registry r =>
    simp only [act, runRegistry]
    split <;> exact ⟨rfl, rfl⟩
  | poke path kind =>
    have hreact := react_frame path ⟨kind, path⟩ s
    have hcoordinator : (s.react path ⟨kind, path⟩).2.coordinator = s.coordinator := by
      rw [hreact]
    have hheld : (s.react path ⟨kind, path⟩).2.held key = s.held key := by
      rw [hreact]
      rfl
    simp only [act]
    by_cases hhandler : s.handlers.contains path = true
    · rw [if_pos hhandler]
      exact ⟨hcoordinator, hheld⟩
    · rw [if_neg hhandler]
      exact ⟨rfl, rfl⟩
  | _ => exact ⟨rfl, rfl⟩

theorem act_reload (h : s.coordinator = some c) (r : ReloadStep) :
    s.act (.reload r) = s.runReload r c := by
  simp only [act, h]

/-- A watch that cannot be installed leaves its key without a rule and without a watch. -/
theorem act_watch_of_error {rule : ReloadRule} {e : TreeError} (h : s.coordinator = some c)
    (haccept : (s.work.service.acceptWatch rule.watch).1 = .error e) :
    (s.act (.reload (.watch rule))).1 = .reloadError (.watch rule.watch e) ∧
      (s.act (.reload (.watch rule))).2.coordinator = some ⟨c.rules.erase rule.watch⟩ ∧
      ∀ key, (s.act (.reload (.watch rule))).2.held key =
        if key = rule.watch then [] else s.held key := by
  have hwork : (s.release (.coordinator rule.watch)).work = s.work := rfl
  rw [act_reload h, runReload, watchRule]
  simp only [hwork]
  rcases hresult : s.work.service.acceptWatch rule.watch with ⟨e' | u, service⟩
  · rw [hresult] at haccept
    obtain rfl : e' = e := Except.error.inj haccept
    exact ⟨rfl, rfl, fun key => held_release rule.watch key s⟩
  · rw [hresult] at haccept
    cases haccept

/-- A watch that can be installed takes the place of the one under its key. -/
theorem act_watch_of_ok {rule : ReloadRule} (h : s.coordinator = some c)
    (haccept : (s.work.service.acceptWatch rule.watch).1 = .ok ()) :
    (s.act (.reload (.watch rule))).1 = .done ∧
      (s.act (.reload (.watch rule))).2.coordinator =
        some ⟨c.rules.insert rule.watch rule⟩ ∧
      ∀ key, (s.act (.reload (.watch rule))).2.held key =
        if key = rule.watch then [⟨key, .coordinator key⟩] else s.held key := by
  have hwork : (s.release (.coordinator rule.watch)).work = s.work := rfl
  have hheld (key : String) : ((s.release (.coordinator rule.watch)).install
      ⟨rule.watch, .coordinator rule.watch⟩).held key =
        if key = rule.watch then [⟨key, .coordinator key⟩] else s.held key := by
    rw [held_install, held_release]
    by_cases hkey : key = rule.watch
    · simp [hkey]
    · simp [hkey, Ne.symm hkey]
  rw [act_reload h, runReload, watchRule]
  simp only [hwork]
  rcases hresult : s.work.service.acceptWatch rule.watch with ⟨e | u, service⟩
  · rw [hresult] at haccept
    cases haccept
  · exact ⟨rfl, rfl, hheld⟩

theorem fate_watch (h : s.coordinator = some c) (rule : ReloadRule) (key : String) :
    ∃ c', (s.act (.reload (.watch rule))).2.coordinator = some c' ∧
      Fate s c (.reload (.watch rule)) key (s.act (.reload (.watch rule))).1
        (s.act (.reload (.watch rule))).2 c' := by
  cases haccept : (s.work.service.acceptWatch rule.watch).1 with
  | error e =>
    obtain ⟨hanswer, hcoordinator, hheld⟩ := act_watch_of_error h haccept
    refine ⟨_, hcoordinator, ?_⟩
    rw [hanswer]
    by_cases hkey : key = rule.watch
    · refine .ended rfl (if_pos hkey.symm) ?_ ((hheld key).trans (if_pos hkey))
      simp [OrderedMap.get?_erase, hkey]
    · refine .untouched (if_neg (Ne.symm hkey)) ?_ ((hheld key).trans (if_neg hkey))
      simp [OrderedMap.get?_erase, hkey]
  | ok _ =>
    obtain ⟨hanswer, hcoordinator, hheld⟩ := act_watch_of_ok h haccept
    refine ⟨_, hcoordinator, ?_⟩
    rw [hanswer]
    by_cases hkey : key = rule.watch
    · refine .installed rule rfl (if_pos hkey.symm) ?_ ((hheld key).trans (if_pos hkey))
      simp [hkey]
    · refine .untouched (if_neg (Ne.symm hkey)) ?_ ((hheld key).trans (if_neg hkey))
      simp [OrderedMap.get?_insert, hkey]

theorem fate_update (h : s.coordinator = some c) (k : String) (rule : ReloadRule)
    (key : String) :
    ∃ c', (s.act (.reload (.update k rule))).2.coordinator = some c' ∧
      Fate s c (.reload (.update k rule)) key (s.act (.reload (.update k rule))).1
        (s.act (.reload (.update k rule))).2 c' := by
  rw [act_reload h, runReload, updateRule]
  by_cases hwatched : c.rules.contains k = true
  · simp only [if_pos hwatched]
    refine ⟨_, rfl, ?_⟩
    by_cases hkey : key = k
    · subst hkey
      refine .updated rule (if_pos rfl) hwatched ?_ rfl
      simp
    · refine .untouched (if_neg (Ne.symm hkey)) ?_ rfl
      simp [OrderedMap.get?_insert, hkey]
  · simp only [if_neg hwatched]
    exact ⟨c, h, .untouched rfl rfl rfl⟩

theorem fate_act (h : s.coordinator = some c) (hdrop : x ≠ .dropCoordinator) (key : String) :
    ∃ c', (s.act x).2.coordinator = some c' ∧ Fate s c x key (s.act x).1 (s.act x).2 c' := by
  by_cases hreload : ∃ r, x = .reload r
  · obtain ⟨r, rfl⟩ := hreload
    cases r with
    | watch rule => exact fate_watch h rule key
    | update k rule => exact fate_update h k rule key
    | unwatch k =>
      rw [act_reload h, runReload]
      refine ⟨_, rfl, ?_⟩
      have hheld := held_release k key s
      by_cases hkey : key = k
      · subst hkey
        refine .ended rfl (if_pos rfl) ?_ (hheld.trans (if_pos rfl))
        simp [OrderedMap.get?_erase]
      · refine .untouched (if_neg (Ne.symm hkey)) ?_ (hheld.trans (if_neg hkey))
        simp [OrderedMap.get?_erase, hkey]
    | shutdown =>
      rw [act_reload h, runReload]
      exact ⟨_, rfl, .ended rfl rfl rfl (held_releaseCoordinator key s)⟩
    | now k =>
      have hcoordinator : (s.reloadNow k c).2.coordinator = some c := by
        rw [reloadNow_frame]
        exact h
      have hwatches : (s.reloadNow k c).2.watches = s.watches := by rw [reloadNow_frame]
      rw [act_reload h, runReload_now]
      exact ⟨c, hcoordinator, .untouched rfl rfl (held_congr hwatches key)⟩
    | keys | isWatching k | rule k =>
      rw [act_reload h, runReload]
      exact ⟨c, h, .untouched rfl rfl rfl⟩
  · have hreload' : ∀ r, x ≠ .reload r := fun r hr => hreload ⟨r, hr⟩
    obtain ⟨hcoordinator, hheld⟩ := act_frame key hreload' hdrop
    refine ⟨c, hcoordinator.trans h, .untouched ?_ rfl hheld⟩
    cases x <;> first | rfl | exact absurd rfl (hreload' _)

/-- The same after the watches have heard of the step. -/
theorem fate_step (h : s.coordinator = some c) (hdrop : x ≠ .dropCoordinator) :
    ∃ c', (s.step x).2.coordinator = some c' ∧
      ∀ key, Fate s c x key (s.step x).1 (s.step x).2 c' := by
  obtain ⟨c', hact, -⟩ := fate_act h hdrop ""
  refine ⟨c', (coordinator_settle _).trans hact, fun key => ?_⟩
  obtain ⟨c'', hact', hfate⟩ := fate_act h hdrop key
  obtain rfl : c' = c'' := Option.some.inj (hact.symm.trans hact')
  have hkey : (s.step x).2.held key = (s.act x).2.held key := held_settle hact key
  cases hfate with
  | untouched sets rule held => exact .untouched sets rule (hkey.trans held)
  | installed r asks sets rule held => exact .installed r asks sets rule (hkey.trans held)
  | updated r sets watched rule held => exact .updated r sets watched rule (hkey.trans held)
  | ended asks sets rule held => exact .ended asks sets rule (hkey.trans held)

/-- A key that has a rule has one watch, on its own path, and a key without a rule has none. -/
def Tidy (s : Session) (c : Coordinator) : Prop :=
  ∀ key, s.held key = if c.rules.contains key then [⟨key, .coordinator key⟩] else []

theorem Tidy.step {s' : Session} {c' : Coordinator} {answer : Answer} (h : s.Tidy c)
    (hfate : ∀ key, Fate s c x key answer s' c') : s'.Tidy c' := by
  intro key
  have hbefore := h key
  rw [OrderedMap.contains] at hbefore ⊢
  cases hfate key with
  | untouched sets rule held => rw [held, rule, hbefore]
  | installed r asks sets rule held => simp [held, rule]
  | updated r sets watched rule held =>
    have hwatched : (c.rules.get? key).isSome = true := watched
    simp [held, rule, hbefore, hwatched]
  | ended asks sets rule held => simp [held, rule]

/-- The rule of a key is what the last step that concerns it makes of it. -/
theorem Fate.rule_eq {s' : Session} {c' : Coordinator} {answer : Answer}
    (h : Fate s c x key answer s' c') :
    c'.rules.get? key = (ruleSet? key (x, answer)).getD (c.rules.get? key) := by
  cases h with
  | untouched sets rule held => simp [sets, rule]
  | installed r asks sets rule held => simp [sets, rule]
  | updated r sets watched rule held => simp [sets, rule]
  | ended asks sets rule held => simp [sets, rule]

/-! ## Runs -/

theorem tidy_after (templates : TemplateSet) (files : Files) (steps : List Step)
    (hkept : .dropCoordinator ∉ steps) :
    ∃ c, ((start templates files).after steps).coordinator = some c ∧
      ((start templates files).after steps).Tidy c ∧
      ∀ key, c.rules.get? key = ruleOf key ((start templates files).transcript steps) := by
  induction steps using List.reverseRecOn with
  | nil => exact ⟨⟨.empty⟩, rfl, fun _ => rfl, fun _ => rfl⟩
  | append_singleton steps x ih =>
    simp only [List.mem_append, List.mem_singleton, not_or] at hkept
    obtain ⟨c, hcoordinator, htidy, hrules⟩ := ih hkept.1
    obtain ⟨c', hcoordinator', hfate⟩ := fate_step hcoordinator (Ne.symm hkept.2)
    rw [after_concat]
    refine ⟨c', hcoordinator', htidy.step hfate, fun key => ?_⟩
    rw [transcript_concat, ruleOf_concat, ← hrules]
    exact (hfate key).rule_eq

/-- A coordinator that was dropped does not come back. -/
theorem not_mem_of_coordinator {steps : List Step} (h : (s.after steps).coordinator = some c) :
    .dropCoordinator ∉ steps := by
  induction steps using List.reverseRecOn generalizing c with
  | nil => exact List.not_mem_nil
  | append_singleton steps x ih =>
    rw [after_concat] at h
    have hact : ((s.after steps).act x).2.coordinator = some c :=
      (coordinator_settle _).symm.trans h
    have hdrop : x ≠ .dropCoordinator := by
      rintro rfl
      cases hact
    have hbefore : ∃ c', (s.after steps).coordinator = some c' := by
      cases hcoordinator : (s.after steps).coordinator with
      | some c' => exact ⟨c', rfl⟩
      | none =>
        by_cases hreload : ∃ r, x = .reload r
        · obtain ⟨r, rfl⟩ := hreload
          simp [act, hcoordinator] at hact
        · have hframe := act_frame (s := s.after steps) ""
            (fun r hr => hreload ⟨r, hr⟩) hdrop
          rw [hframe.1, hcoordinator] at hact
          cases hact
    obtain ⟨c', hc'⟩ := hbefore
    simp only [List.mem_append, List.mem_singleton, not_or]
    exact ⟨ih hc', Ne.symm hdrop⟩

/-- After every run in which the coordinator is not dropped, a key is watched, by one watch on
its own path, exactly if it has a rule; its rule is that of the last successful installation or
update since then. Ending a watch and updating a rule say whether the key was watched. An
installation that fails leaves its key without a rule and without a watch, and the other keys
alone. No other step, with all that the watches then hear and all cycles that then run, ends or
adds a watch of the coordinator. -/
theorem one_watch_for_each_rule (templates : TemplateSet) (files : Files) (steps : List Step)
    (hkept : .dropCoordinator ∉ steps) :
    let s := (start templates files).after steps
    ∃ c, s.coordinator = some c ∧
      (∀ key, s.held key = if c.rules.contains key then [⟨key, .coordinator key⟩] else []) ∧
      (∀ key, c.rules.get? key = ruleOf key ((start templates files).transcript steps)) ∧
      (∀ key, (s.step (.reload (.unwatch key))).1 = .flag (c.rules.contains key)) ∧
      (∀ key rule, (s.step (.reload (.update key rule))).1 = .flag (c.rules.contains key)) ∧
      (∀ rule e, (s.work.service.acceptWatch rule.watch).1 = .error e →
        (s.step (.reload (.watch rule))).1 = .reloadError (.watch rule.watch e) ∧
        ∃ c', (s.step (.reload (.watch rule))).2.coordinator = some c' ∧
          c'.rules = c.rules.erase rule.watch ∧
          ∀ key, (s.step (.reload (.watch rule))).2.held key =
            if key = rule.watch then [] else s.held key) ∧
      ∀ x : Step, x.asksForWatches = false → ∀ key, (s.step x).2.held key = s.held key := by
  intro s
  obtain ⟨c, hcoordinator, htidy, hrules⟩ := tidy_after templates files steps hkept
  refine ⟨c, hcoordinator, htidy, hrules, ?_, ?_, ?_, ?_⟩
  · intro key
    show (s.act (.reload (.unwatch key))).1 = _
    rw [act_reload hcoordinator, runReload]
    rfl
  · intro key rule
    show (s.act (.reload (.update key rule))).1 = _
    rw [act_reload hcoordinator, runReload, updateRule]
    cases hcontains : c.rules.contains key <;> rfl
  · intro rule e haccept
    obtain ⟨hanswer, hafter, hheld⟩ := act_watch_of_error hcoordinator haccept
    refine ⟨hanswer, _, (coordinator_settle _).trans hafter, rfl, fun key => ?_⟩
    exact (held_settle hafter key).trans (hheld key)
  · intro x hasks key
    have hdrop : x ≠ .dropCoordinator := by
      rintro rfl
      exact absurd hasks (by decide)
    obtain ⟨c', -, hfate⟩ := fate_step hcoordinator hdrop
    cases hfate key with
    | untouched sets rule held => exact held
    | installed r asks sets rule held => simp [hasks] at asks
    | updated r sets watched rule held => exact held
    | ended asks sets rule held => simp [hasks] at asks

end Session

/-! ## A watch that cannot be installed again -/

namespace Reinstallation

/-- A rule that watches the given path. -/
def rule (watch : String) : ReloadRule :=
  ⟨watch, ⟨"d", "s", "v"⟩, .config, .base "c" "s", "app.conf", "app.conf", []⟩

/-- Two rules are watched for; installing the second watch again is going to fail once. -/
def steps : List Step :=
  [.reload (.watch (rule "/a")), .reload (.watch (rule "/b")),
    .fault ⟨.watch, "/b", .disconnected, 0⟩]

/-- The second key loses its watch, and the first keeps its own. -/
theorem other_watch_kept :
    let s := (Session.start .standard .empty).after steps
    let s' := (s.step (.reload (.watch (rule "/b")))).2
    s'.held "/b" = [] ∧ s'.held "/a" = [⟨"/a", .coordinator "/a"⟩] := by
  intro s s'
  have hkept : .dropCoordinator ∉ steps := by simp [steps]
  have haccept : (s.work.service.acceptWatch "/b").1 = .error .disconnected := rfl
  have hheld : s.held "/a" = [⟨"/a", .coordinator "/a"⟩] := rfl
  obtain ⟨c, -, -, -, -, -, hfails, -⟩ :=
    Session.one_watch_for_each_rule .standard .empty steps hkept
  obtain ⟨-, c', -, -, hafter⟩ := hfails (rule "/b") .disconnected haccept
  exact ⟨hafter "/b", (hafter "/a").trans hheld⟩

end Reinstallation

end Coordination
