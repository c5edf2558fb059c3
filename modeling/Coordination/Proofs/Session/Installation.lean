import Coordination.Proofs.Session.Lifetimes

/-!
# Rules of a configuration

The rules of a valid configuration are installed one after the other. Where a rule watches a path
of the tree, its installation succeeds, and unless a later rule watches the same path and takes its
place, the rule is kept: every event at its path, as far as watches have room, runs one cycle of it.
-/

namespace Coordination

theorem Config.rules_of_validate {config : Config} (h : config.validate = .ok ()) :
    config.rules = .ok (config.reload.map RuleConfig.toRule) := by
  rw [Config.rules, h]
  rfl

/-- Where no call is made to fail, only paths that the tree has not are refused. -/
theorem Service.acceptWatch_of_faults_eq_nil {v : Service} (h : v.faults = []) (path : String) :
    v.acceptWatch path = (Tree.checkPath path, v) := by
  cases v with
  | mk tree faults events =>
    obtain rfl : faults = [] := h
    rfl

/-- Whether the step leaves the coordinator alone. -/
def Step.sparesCoordinator : Step → Bool
  | .reload _ | .dropCoordinator => false
  | _ => true

namespace Session

variable {s s' : Session} {c : Coordinator}

/-- Install rules one after the other. -/
def installing (rules : List ReloadRule) : List Step := rules.map fun r => .reload (.watch r)

/-- There is a coordinator, no call is made to fail, and no event waits. -/
structure Ready (s : Session) (c : Coordinator) : Prop where
  coordinator : s.coordinator = some c
  faults : s.work.service.faults = []
  events : s.work.service.events = []

theorem Ready.of_act {x : Step} {c' : Coordinator} (h : s.Ready c)
    (hcoordinator : (s.act x).2.coordinator = some c') (hwork : (s.act x).2.work = s.work) :
    (s.step x).2.Ready c' := by
  have hevents : (s.act x).2.work.service.events = [] := by rw [hwork, h.events]
  have hsettle : (s.step x).2.work = s.work := (settle_work hevents).trans hwork
  exact ⟨(coordinator_settle _).trans hcoordinator, by rw [hsettle, h.faults],
    by rw [hsettle, h.events]⟩

theorem work_watchRule (h : s.work.service.faults = []) (rule : ReloadRule) (c : Coordinator) :
    (s.watchRule rule c).2.work = s.work := by
  have hwork : (s.release (.coordinator rule.watch)).work = s.work := rfl
  rw [watchRule]
  simp only [hwork]
  rw [Service.acceptWatch_of_faults_eq_nil h]
  cases Tree.checkPath rule.watch <;> rfl

/-- Installing a rule does not concern others, and succeeds on a path of the tree. -/
theorem Ready.install (h : s.Ready c) (rule : ReloadRule) :
    ∃ c', (s.step (.reload (.watch rule))).2.Ready c' ∧
      (∀ key, key ≠ rule.watch → c'.rules.get? key = c.rules.get? key ∧
        (s.step (.reload (.watch rule))).2.held key = s.held key) ∧
      (Path.isValid rule.watch = true → (s.step (.reload (.watch rule))).1 = .done ∧
        c'.rules.get? rule.watch = some rule ∧
        (s.step (.reload (.watch rule))).2.held rule.watch =
          [⟨rule.watch, .coordinator rule.watch⟩]) := by
  have hwork : (s.act (.reload (.watch rule))).2.work = s.work := by
    rw [act_reload h.coordinator, (runReload_watch rule c s).1, work_watchRule h.faults]
  have haccept := Service.acceptWatch_of_faults_eq_nil h.faults rule.watch
  cases hpath : Path.isValid rule.watch with
  | false =>
    have hrefused : (s.work.service.acceptWatch rule.watch).1 =
        .error (.invalidPath rule.watch) := by simp [haccept, Tree.checkPath, hpath]
    obtain ⟨-, hcoordinator, hheld⟩ := act_watch_of_error h.coordinator hrefused
    refine ⟨_, h.of_act hcoordinator hwork, fun key hkey => ?_, by simp⟩
    refine ⟨by simp [OrderedMap.get?_erase, hkey], ?_⟩
    exact (held_settle hcoordinator key).trans ((hheld key).trans (if_neg hkey))
  | true =>
    have haccepted : (s.work.service.acceptWatch rule.watch).1 = .ok () := by
      simp [haccept, Tree.checkPath, hpath]
    obtain ⟨hdone, hcoordinator, hheld⟩ := act_watch_of_ok h.coordinator haccepted
    refine ⟨_, h.of_act hcoordinator hwork, fun key hkey => ?_, fun _ => ⟨hdone, by simp, ?_⟩⟩
    · refine ⟨by simp [OrderedMap.get?_insert, hkey], ?_⟩
      exact (held_settle hcoordinator key).trans ((hheld key).trans (if_neg hkey))
    · exact (held_settle hcoordinator _).trans ((hheld rule.watch).trans (if_pos rfl))

/-- Installing rules does not concern a key that none of them watches. -/
theorem Ready.installing (h : s.Ready c) (rules : List ReloadRule) :
    ∃ c', (s.after (installing rules)).Ready c' ∧
      ∀ key, (∀ rule ∈ rules, rule.watch ≠ key) → c'.rules.get? key = c.rules.get? key ∧
        (s.after (Session.installing rules)).held key = s.held key := by
  induction rules generalizing s c with
  | nil => exact ⟨c, h, fun _ _ => ⟨rfl, rfl⟩⟩
  | cons rule rules ih =>
    obtain ⟨c₁, hready, hothers, -⟩ := h.install rule
    obtain ⟨c₂, hready', hkept⟩ := ih hready
    refine ⟨c₂, hready', fun key hne => ?_⟩
    obtain ⟨hrule, hrules⟩ := List.forall_mem_cons.1 hne
    obtain ⟨hget, hheld⟩ := hothers key (Ne.symm hrule)
    obtain ⟨hget', hheld'⟩ := hkept key hrules
    exact ⟨hget'.trans hget, hheld'.trans hheld⟩

theorem after_append (s : Session) (steps steps' : List Step) :
    s.after (steps ++ steps') = (s.after steps).after steps' := List.foldl_append

/-- The last rule for a path is the one that is kept for it. -/
theorem Ready.installing_last (h : s.Ready c) (before : List ReloadRule) (rule : ReloadRule)
    {after : List ReloadRule} (hpath : Path.isValid rule.watch = true)
    (hlast : ∀ r ∈ after, r.watch ≠ rule.watch) :
    ∃ c', (s.after (Session.installing (before ++ rule :: after))).Ready c' ∧
      c'.rules.get? rule.watch = some rule ∧
      (s.after (Session.installing (before ++ rule :: after))).held rule.watch =
        [⟨rule.watch, .coordinator rule.watch⟩] := by
  obtain ⟨c₁, hready₁, -⟩ := h.installing before
  obtain ⟨c₂, hready₂, -, hinstalled⟩ := hready₁.install rule
  obtain ⟨-, hget, hheld⟩ := hinstalled hpath
  obtain ⟨c₃, hready₃, hkept⟩ := hready₂.installing after
  obtain ⟨hget', hheld'⟩ := hkept rule.watch hlast
  rw [Session.installing, List.map_append, after_append]
  exact ⟨c₃, hready₃, hget'.trans hget, hheld'.trans hheld⟩

/-! ## Events at the path of a rule -/

/-- Steps that leave the coordinator alone leave its watches alone. -/
theorem act_spared (h : s.coordinator = some c) {x : Step} (hspare : x.sparesCoordinator = true)
    (key : String) : (s.act x).2.coordinator = some c ∧ (s.act x).2.held key = s.held key := by
  have hreload : ∀ r, x ≠ .reload r := by
    rintro r rfl
    cases hspare
  have hdrop : x ≠ .dropCoordinator := by
    rintro rfl
    cases hspare
  obtain ⟨hcoordinator, hheld⟩ := act_frame (s := s) key hreload hdrop
  exact ⟨hcoordinator.trans h, hheld⟩

theorem spared_run (h : s.coordinator = some c) {steps : List Step}
    (hspare : ∀ y ∈ steps, y.sparesCoordinator = true) (key : String) :
    (s.after steps).coordinator = some c ∧ (s.after steps).held key = s.held key := by
  induction steps generalizing s with
  | nil => exact ⟨h, rfl⟩
  | cons x steps ih =>
    obtain ⟨hx, hsteps⟩ := List.forall_mem_cons.1 hspare
    obtain ⟨hcoordinator, hheld⟩ := act_spared h hx key
    obtain ⟨hafter, hheld'⟩ := ih ((coordinator_settle _).trans hcoordinator) hsteps
    exact ⟨hafter, hheld'.trans ((held_settle hcoordinator key).trans hheld)⟩

/-- Listeners leave the tree and the coordinator alone. -/
theorem Handed.frame {hs : List Hearing} (h : Handed s hs s') :
    Reads s s' ∧ s'.coordinator = s.coordinator := by
  induction h with
  | none s => exact ⟨.refl s, rfl⟩
  | @goesOn s s' s'' l e rest hear _ ih =>
    have hreads := reads_hear l e s
    have hframe := (hear_frame l e s).1
    rw [hear] at hreads hframe
    exact ⟨hreads.trans _ _ _ ih.1, ih.2.trans hframe⟩
  | @ends s s' s'' l e rest hear _ ih =>
    have hreads := reads_hear l e s
    have hframe := (hear_frame l e s).1
    rw [hear] at hreads hframe
    have hreleased : Reads s (s'.release l) := ⟨hreads.registry, hreads.tree, hreads.events⟩
    exact ⟨hreleased.trans _ _ _ ih.1, ih.2.trans hframe⟩

/-- The coordinator answers every event but a lost connection with a cycle of the rule. -/
theorem work_of_hear {key : String} {rule : ReloadRule} {e : Event}
    (h : s.coordinator = some c) (hrule : c.rules.get? key = some rule)
    (hkind : e.kind ≠ .disconnected) (hhear : s.hear (.coordinator key) e = (true, s')) :
    s'.work = (rule.cycle s.registry s.work).2 := by
  have hwork : (s.hear (.coordinator key) e).2.work = (s.reloadNow key c).2.work := by
    simp only [hear, react, h, if_neg hkind]
    rfl
  rw [hhear] at hwork
  rw [hwork, reloadNow_of_rule hrule]

/-- A listener whose only watch is at a path is handed an event at this path, where there is room
for it, in its turn: what the listener was told before are the events before it. -/
theorem exists_handed {key : String} {x : Step} (hcoordinator : (s.act x).2.coordinator = some c)
    (hheld : (s.act x).2.held key = [⟨key, .coordinator key⟩]) {earlier later : List Event}
    {e : Event} (hrecent : recent (s.emitted x) = earlier ++ e :: later) (hpath : e.path = key) :
    ∃ hs hs' s₁ s₂, s.stepHearings x = hs ++ ⟨.coordinator key, e, true⟩ :: hs' ∧
      toldTo (.coordinator key) hs = (earlier.filter (·.concerns key)).map (·, true) ∧
      Handed (s.act x).2.hushed hs s₁ ∧ s₁.hear (.coordinator key) e = (true, s₂) ∧
      Handed s₂ hs' (s.step x).2 := by
  obtain ⟨goesOn, hheard, hwatch⟩ := heard_step (w := ⟨key, .coordinator key⟩) hheld
  have hkept : (s.step x).2.held key = [⟨key, .coordinator key⟩] :=
    (held_settle hcoordinator key).trans hheld
  have hgoes : goesOn = true := by
    cases goesOn with
    | true => rfl
    | false => exact absurd (hkept.symm.trans hwatch) (List.cons_ne_nil _ _)
  subst hgoes
  have hconcerns : e.concerns key = true := by simp [Event.concerns, hpath]
  have htold : toldTo (.coordinator key) (s.stepHearings x) =
      (earlier.filter (·.concerns key)).map (·, true) ++
        (e, true) :: (later.filter (·.concerns key)).map (·, true) := by
    rw [hheard.told_eq, hrecent]
    simp [hconcerns]
  obtain ⟨hs, hs', hsplit, hbefore⟩ := exists_of_toldTo_eq_append htold
  have hhanded := handed_step x s
  rw [hsplit] at hhanded
  obtain ⟨s₁, s₂, hfirst, hhear, hrest⟩ := hhanded.exists_of_append
  exact ⟨hs, hs', s₁, s₂, hsplit, hbefore, hfirst, hhear, hrest⟩

/-- Every rule of a valid configuration takes effect whose path is one of the tree and which no
later rule of the same path replaces. The rules are those that the configuration states; where they
are installed one after the other and no call is made to fail, the installation of the rule
succeeds; and afterwards, however the run goes on without the coordinator being asked anything, at
each event at the path that there is room for, but for a lost connection, one cycle of the rule
runs, in the turn of the event and on the tree as the step left it. -/
theorem accepted_rule_takes_effect {config : Config} (hvalid : config.validate = .ok ())
    (hs : s.Ready c) {before after : List RuleConfig} {r : RuleConfig}
    (hsplit : config.reload = before ++ r :: after) (hpath : Path.isValid r.watch = true) :
    ∃ rules, config.rules = .ok rules ∧ rules = config.reload.map RuleConfig.toRule ∧
      ((s.after (installing (before.map RuleConfig.toRule))).step
        (.reload (.watch r.toRule))).1 = .done ∧
      ((∀ r' ∈ after, r'.watch ≠ r.watch) → ∀ (steps : List Step) (x : Step),
        (∀ y ∈ steps ++ [x], y.sparesCoordinator = true) →
        let s' := (s.after (installing rules)).after steps
        ∀ earlier e later, recent (s'.emitted x) = earlier ++ e :: later →
          e.path = r.watch → e.kind ≠ .disconnected →
          ∃ hs hs' s₁ s₂,
            s'.stepHearings x = hs ++ ⟨.coordinator r.watch, e, true⟩ :: hs' ∧
            toldTo (.coordinator r.watch) hs =
              (earlier.filter (·.concerns r.watch)).map (·, true) ∧
            Handed (s'.act x).2.hushed hs s₁ ∧
            s₁.hear (.coordinator r.watch) e = (true, s₂) ∧
            Handed s₂ hs' (s'.step x).2 ∧
            s₁.work.service.tree = (s'.act x).2.work.service.tree ∧
            s₂.work = (r.toRule.cycle s₁.registry s₁.work).2) := by
  refine ⟨_, Config.rules_of_validate hvalid, rfl, ?_, ?_⟩
  · obtain ⟨c₁, hready, -⟩ := hs.installing (before.map RuleConfig.toRule)
    obtain ⟨c₂, -, -, hinstalled⟩ := hready.install r.toRule
    exact (hinstalled hpath).1
  · intro hlast steps x hspare s' earlier e later hrecent hevent hkind
    have hlast' : ∀ rule ∈ after.map RuleConfig.toRule, rule.watch ≠ r.toRule.watch :=
      List.forall_mem_map.2 hlast
    have hinstalled := hs.installing_last (before.map RuleConfig.toRule) r.toRule hpath hlast'
    rw [← List.map_cons, ← List.map_append, ← hsplit] at hinstalled
    obtain ⟨c', hready, hrule, hheld⟩ := hinstalled
    rw [List.forall_mem_append, List.forall_mem_singleton] at hspare
    obtain ⟨hcoordinator, hheld'⟩ := spared_run hready.coordinator hspare.1 r.watch
    obtain ⟨hact, hheldAct⟩ := act_spared hcoordinator hspare.2 r.watch
    obtain ⟨hs, hs', s₁, s₂, hrecord, htold, hfirst, hhear, hrest⟩ :=
      exists_handed hact (hheldAct.trans (hheld'.trans hheld)) hrecent hevent
    obtain ⟨hreads, hframe⟩ := hfirst.frame
    exact ⟨hs, hs', s₁, s₂, hrecord, htold, hfirst, hhear, hrest, hreads.tree,
      work_of_hear (hframe.trans hact) hrule hkind hhear⟩

end Session

/-! ## Two rules -/

namespace TwoRules

/-- A rule that renders one of two templates to an output of its own. -/
def rule (watch template : String) : RuleConfig :=
  ⟨watch, "d", "s", "v", template, .config, "c", none, template ++ ".out", []⟩

/-- A configuration of two rules. -/
def config (watch watch' : String) : Config := ⟨.empty, [rule watch "a", rule watch' "b"]⟩

/-- A session with the two templates in a working directory. -/
def session : Session :=
  (Session.start .standard ⟨.ofList [("/work", .directory)], .empty⟩).after
    [.registry (.newConf .config (.base "c" "s")
      (.ofList [("a", Text.Utf8.encode "A"), ("b", Text.Utf8.encode "B")]))]

theorem ready : session.Ready ⟨.empty⟩ where
  coordinator := by decide +kernel
  faults := by decide +kernel
  events := by decide +kernel

/-- With a path for each rule, the event at the first path is handed to the first rule. -/
theorem first_hears :
    let s := session.after (Session.installing ((config "/w" "/v").reload.map RuleConfig.toRule))
    (⟨.coordinator "/w", ⟨.created, "/w"⟩, true⟩ : Hearing) ∈
      s.stepHearings (.call (.create "/w" [])) := by
  have hvalid : (config "/w" "/v").validate = .ok () := eq_ok_of_toOption (by decide +kernel)
  have hsplit : (config "/w" "/v").reload = [] ++ rule "/w" "a" :: [rule "/v" "b"] := rfl
  have hpath : Path.isValid (rule "/w" "a").watch = true := by decide
  obtain ⟨rules, -, rfl, -, hruns⟩ :=
    Session.accepted_rule_takes_effect hvalid ready hsplit hpath
  obtain ⟨hs, hs', s₁, s₂, hrecord, -⟩ := hruns (by simp [rule]) [] (.call (.create "/w" []))
    (by simp [Step.sparesCoordinator]) [⟨.childrenChanged, "/"⟩] ⟨.created, "/w"⟩ []
    (by decide +kernel) rfl (by decide)
  have hafter (s : Session) : s.after [] = s := rfl
  rw [hafter] at hrecord
  intro s
  rw [hrecord]
  exact List.mem_append_right hs List.mem_cons_self

/-- Two rules of one path are valid and can be installed, but the second replaces the first: at an
event the template of the second is rendered only. A rule is valid as well whose path is none of
the tree, and cannot be installed. -/
theorem valid_without_effect :
    (config "/w" "/w").validate = .ok () ∧
    (let installs := Session.installing ((config "/w" "/w").reload.map RuleConfig.toRule)
     (session.transcript installs).map (·.2.isDone) = [true, true] ∧
     let s := ((session.after installs).step (.call (.create "/w" []))).2
     s.handled.get? "/w" = some [(⟨.created, "/w"⟩, true)] ∧
     s.work.files.read "b.out" = .ok (Text.Utf8.encode "B") ∧
     (s.work.files.read "a.out").toOption = none) ∧
    (config "/w/" "/v").validate = .ok () ∧
    (session.step (.reload (.watch (rule "/w/" "a").toRule))).1.isDone = false := by
  refine ⟨eq_ok_of_toOption (by decide +kernel), ⟨by decide +kernel, by decide +kernel, ?_, ?_⟩,
    eq_ok_of_toOption (by decide +kernel), by decide +kernel⟩
  · exact eq_ok_of_toOption (by decide +kernel)
  · decide +kernel

end TwoRules

end Coordination
