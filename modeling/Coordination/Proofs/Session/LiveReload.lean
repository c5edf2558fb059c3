import Coordination.Proofs.Registry.LivePointer
import Coordination.Proofs.Session.Delivery
import Coordination.Proofs.Session.Service

/-!
# Live pointers and reload cycles

Making a release live touches the node that watchers of the service watch, as the last event of
the step. A rule that is kept under the path of this node therefore has one cycle for it, which
finds the tree as the step left it; what it leaves in the files is what a cycle on demand would
leave that comes right after the step.

This rests on the templates: where storing the pointer touches the watched node as well, as with
one place for both, the cycle runs twice.
-/

namespace Coordination

namespace Session

variable {s : Session} {c : Coordinator}

/-- The session is one that a run leads to. -/
def Reached (templates : TemplateSet) (s : Session) : Prop :=
  ∃ files steps, s = (start templates files).after steps

/-- What holds of every session that a run leads to. -/
theorem Reached.facts {templates : TemplateSet} (h : s.Reached templates)
    (hcoordinator : s.coordinator = some c) :
    s.registry = ⟨templates⟩ ∧ s.work.service.tree.Sound ∧ s.work.service.events = [] ∧
      s.Tidy c := by
  obtain ⟨files, steps, rfl⟩ := h
  have hkept : .dropCoordinator ∉ steps := not_mem_of_coordinator hcoordinator
  obtain ⟨hregistry, hsound, hevents⟩ := sound_after templates files steps
  obtain ⟨c', hcoordinator', htidy, -⟩ := tidy_after templates files steps hkept
  obtain rfl : c = c' := Option.some.inj (hcoordinator.symm.trans hcoordinator')
  exact ⟨hregistry, hsound, hevents, htidy⟩

/-- The session right after a step, without anybody having heard of it. -/
def unheard (x : Step) (s : Session) : Session := (s.act x).2.hushed

theorem act_setLive {p : LivePointer} (h : (s.act (.registry (.setLive p))).1 = .done) :
    ∃ v, s.work.service.run (s.registry.setLive p).run = (.ok (), v) ∧
      (s.act (.registry (.setLive p))).2 = { s with work := ⟨v, s.work.files⟩ } := by
  rw [act, runRegistry] at h ⊢
  rcases hrun : s.work.service.run ((RegistryStep.setLive p).action s.registry).run with
    ⟨e | answer, v⟩
  · rw [hrun] at h
    cases h
  · rw [hrun] at h
    obtain rfl : answer = .done := h
    obtain ⟨_, v', hset, hrest⟩ := Service.exists_of_run_bind_eq_ok hrun
    cases hrest
    exact ⟨v, hset, rfl⟩

theorem settle_work (h : s.work.service.events = []) : s.settle.work = s.work := by
  have hidle (watches : List Watch) (s : Session) :
      watches.foldl (fun s w => deliverTo w [] s) s = s := by
    induction watches generalizing s with
    | nil => rfl
    | cons w watches ih => exact ih s
  have hwork : s.hushed.work = s.work := by
    cases s with
    | mk registry work watches recorders coordinator handlers handled =>
      cases work with
      | mk service files =>
        cases service with
        | mk tree faults events =>
          obtain rfl : events = [] := h
          rfl
  rw [settle_eq, h]
  exact (congrArg Session.work (hidle s.watches s.hushed)).trans hwork

/-- A cycle on demand does with the files what the cycle of the rule does. -/
theorem files_of_now {key : String} {rule : ReloadRule} (h : s.coordinator = some c)
    (hrule : c.rules.get? key = some rule) (hevents : s.work.service.events = []) :
    (s.step (.reload (.now key))).2.work.files = (rule.cycle s.registry s.work).2.files := by
  have hact : (s.act (.reload (.now key))).2 = (s.reloadNow key c).2 := by
    rw [act_reload h, runReload_now]
  have hsettle : (s.act (.reload (.now key))).2.work.service.events = [] := by
    rw [hact, (reads_reloadNow key c s).events, hevents]
  have hwork : (s.step (.reload (.now key))).2.work = (s.reloadNow key c).2.work :=
    (settle_work hsettle).trans (congrArg Session.work hact)
  rw [hwork, reloadNow_of_rule hrule]

/-- Where storing the pointer does not touch the watched node, and with the standard templates
it never does, making a release live has exactly one cycle of the rule that is kept under the
path of this node: its handler hears of one event, which says whether the node is new; no other
handler hears of anything; and the files are as one cycle on demand right after the step leaves
them, which renders the effective template with the environment as they are then. -/
theorem live_pointer_reloads_once {templates : TemplateSet} (hs : s.Reached templates)
    (p : LivePointer) {key : String} {rule : ReloadRule} (hcoordinator : s.coordinator = some c)
    (hrule : c.rules.get? key = some rule)
    (hkey : templates.path (.liveWatch p.domain p.service) = .ok key)
    (hfaults : s.work.service.faults = [])
    (hothers : ∀ key', key' ≠ key → c.rules.contains key' = true →
      ∀ e ∈ (s.act (.registry (.setLive p))).2.work.service.events, e.path ≠ key')
    (huntouched : templates = .standard ∨
      ∀ e ∈ (s.work.service.run (s.registry.store (.live p)).run).2.events, e.path ≠ key)
    (hdone : (s.step (.registry (.setLive p))).1 = .done) :
    let s' := (s.step (.registry (.setLive p))).2
    let told := s.unheard (.registry (.setLive p))
    ∃ e : Event, e.path = key ∧
      (e.kind = .created ∧ ¬ s.work.service.tree.Has key ∨
        e.kind = .changed ∧ s.work.service.tree.Has key) ∧
      s'.handled = s.handled.insert key ((s.handled.get? key).getD [] ++ [(e, true)]) ∧
      s'.work.files = (told.step (.reload (.now key))).2.work.files ∧
      s'.work.files = rule.filesAfter ⟨templates⟩ told.work.service.tree s.work.files := by
  intro s' told
  obtain ⟨hregistry, hsound, hevents, htidy⟩ := hs.facts hcoordinator
  obtain ⟨v, hrun, hact⟩ := act_setLive hdone
  rw [hregistry] at hrun huntouched
  have huntouched' : ∀ e ∈ (s.work.service.run
      (Registry.store ⟨templates⟩ (.live p)).run).2.events, e.path ≠ key := by
    rcases huntouched with rfl | huntouched
    · obtain ⟨_, v', hstore, -⟩ := Service.exists_of_run_bind_eq_ok hrun
      have hafter := Registry.untouched_of_standard hfaults hsound hevents hkey hstore
      rwa [hstore]
    · exact huntouched
  obtain ⟨hfaults', earlier, last, hlast, hpath, hkind, hlost, hearlier⟩ :=
    Registry.events_of_setLive hfaults hsound hevents hkey huntouched' hrun
  rw [hact] at hothers
  obtain ⟨hhandled, hwork⟩ := settle_once (s := { s with work := ⟨v, s.work.files⟩ })
    hcoordinator htidy hrule hlast hpath hlost hearlier
    fun key' hne hcontains e he => hothers key' hne hcontains e (by rw [hlast]; exact he)
  have hstep : s' = settle { s with work := ⟨v, s.work.files⟩ } := congrArg settle hact
  have htold : told = { s with work := ⟨{ v with events := [] }, s.work.files⟩ } :=
    congrArg hushed hact
  have hregistry' : told.registry = ⟨templates⟩ :=
    (congrArg Session.registry htold).trans hregistry
  have hcoordinator' : told.coordinator = some c :=
    (congrArg Session.coordinator htold).trans hcoordinator
  have htoldWork : told.work = ⟨{ v with events := [] }, s.work.files⟩ :=
    congrArg Session.work htold
  have hcycle : s'.work.files = (rule.cycle ⟨templates⟩ told.work).2.files := by
    rw [hstep, hwork, htoldWork, ← hregistry]
    rfl
  refine ⟨last, hpath, hkind, ?_, ?_, ?_⟩
  · rw [hstep]
    exact hhandled
  · have hidle : told.work.service.events = [] := by rw [htoldWork]
    rw [hcycle, files_of_now hcoordinator' hrule hidle, hregistry']
  · rw [hcycle, htoldWork, rule.cycle_of_faults_eq_nil ⟨templates⟩ hfaults']

end Session

/-- Whether the answer is that all was done. -/
def Answer.isDone : Answer → Bool
  | .done => true
  | _ => false

theorem Answer.eq_of_isDone {answer : Answer} (h : answer.isDone = true) : answer = .done := by
  cases answer with
  | done => rfl
  | _ => cases h

/-! ## The first release that is made live -/

namespace FirstPointer

/-- What is made live. -/
def pointer : LivePointer := ⟨"d", "s", "/d/s/v/container/i", "/d/s/v/env"⟩

/-- A rule that waits for releases of the service. -/
def rule (watch : String) : ReloadRule :=
  ⟨watch, ⟨"d", "s", "v"⟩, .config, .base "c" "s", "app.conf", "app.conf", []⟩

/-- A new session with a watch for the rule. -/
def session (templates : TemplateSet) (watch : String) : Session :=
  (Session.start templates .empty).after [.reload (.watch (rule watch))]

/-- With the standard templates the rule has one cycle, for the watched node that is created. -/
theorem reloads_once :
    ∃ e : Event, e.kind = .created ∧
      ((session .standard "/d/s/live/watch").step
        (.registry (.setLive pointer))).2.handled.get? "/d/s/live/watch" = some [(e, true)] := by
  have hreached : (session .standard "/d/s/live/watch").Reached .standard := ⟨_, _, rfl⟩
  have hcoordinator : (session .standard "/d/s/live/watch").coordinator =
      some ⟨.ofList [("/d/s/live/watch", rule "/d/s/live/watch")]⟩ := by decide +kernel
  have hrule : (OrderedMap.ofList [("/d/s/live/watch", rule "/d/s/live/watch")]).get?
      "/d/s/live/watch" = some (rule "/d/s/live/watch") := by decide
  have hothers : ∀ key', key' ≠ "/d/s/live/watch" →
      (OrderedMap.ofList [("/d/s/live/watch", rule "/d/s/live/watch")]).contains key' = false := by
    intro key' hne
    simp [OrderedMap.contains, OrderedMap.ofList, OrderedMap.get?_insert, hne]
  have hfaults : (session .standard "/d/s/live/watch").work.service.faults = [] := by
    decide +kernel
  have hmissing : ¬ (session .standard "/d/s/live/watch").work.service.tree.Has
      "/d/s/live/watch" := by decide +kernel
  have hfresh : (session .standard "/d/s/live/watch").handled.get? "/d/s/live/watch" = none := by
    decide +kernel
  have hdone : ((session .standard "/d/s/live/watch").step
      (.registry (.setLive pointer))).1 = .done := Answer.eq_of_isDone (by decide +kernel)
  obtain ⟨e, -, hkind, hhandled, -, -⟩ :=
    Session.live_pointer_reloads_once hreached pointer hcoordinator hrule rfl hfaults
      (fun key' hne hcontains => by simp [hothers key' hne] at hcontains) (Or.inl rfl) hdone
  refine ⟨e, ?_, ?_⟩
  · rcases hkind with ⟨hkind, _⟩ | ⟨_, hhas⟩
    · exact hkind
    · exact absurd hhas hmissing
  · rw [hhandled, OrderedMap.get?_insert, if_pos rfl, hfresh]
    rfl

/-- A source that puts the watched node at the place of the pointer. -/
def source : String :=
  "\x7b\x7bdefine \"KEY\"\x7d\x7d/\x7b\x7b.Domain\x7d\x7d/\x7b\x7b.Service\x7d\x7d/live" ++
    "\x7b\x7bend\x7d\x7d\x7b\x7bdefine \"VALUE\"\x7d\x7d\x7b\x7bend\x7d\x7d"

/-- The standard templates with that of the source. -/
def shared : TemplateSet :=
  ⟨TemplateSet.standard.templates.insert "live-watch"
    (.ofSegments "live-watch" (TemplateSet.servicePath ++ [.text "/live"]) [])⟩

/-- With one place for both, the pointer is created and the same node is written again: the
rule has two cycles. -/
theorem reloads_twice :
    TemplateSet.withOverrides (.ofList [("live-watch", source)]) = .ok shared ∧
      (session shared "/d/s/live").Reached shared ∧
      shared.path (.liveWatch "d" "s") = .ok "/d/s/live" ∧
      (session shared "/d/s/live").coordinator =
        some ⟨.ofList [("/d/s/live", rule "/d/s/live")]⟩ ∧
      (session shared "/d/s/live").work.service.faults = [] ∧
      ((session shared "/d/s/live").step (.registry (.setLive pointer))).1 = .done ∧
      (session shared "/d/s/live").handled.get? "/d/s/live" = none ∧
      ((session shared "/d/s/live").step
        (.registry (.setLive pointer))).2.handled.get? "/d/s/live" =
          some [(⟨.created, "/d/s/live"⟩, true), (⟨.changed, "/d/s/live"⟩, true)] := by
  refine ⟨eq_ok_of_toOption (by decide +kernel), ⟨_, _, rfl⟩, ?_, ?_, ?_, ?_, ?_, ?_⟩
  · exact eq_ok_of_toOption (by decide +kernel)
  · decide +kernel
  · decide +kernel
  · exact Answer.eq_of_isDone (by decide +kernel)
  · decide +kernel
  · decide +kernel

end FirstPointer

end Coordination
