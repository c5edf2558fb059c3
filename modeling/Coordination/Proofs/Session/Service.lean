import Coordination.Proofs.Reload.Cycle
import Coordination.Proofs.Session.Runs
import Mathlib.Data.List.Induction

/-!
# The service of a session

Hearing of events only reads: the tree and the templates stay, and no new events come about. So
between the steps of a run no event waits, the templates are those of the start, and the tree
is sound whatever the steps were.
-/

namespace Coordination

theorem Service.tree_acceptWatch (path : String) (v : Service) :
    (v.acceptWatch path).2.tree = v.tree := by
  have htree := v.tree_accept .watch path
  rw [Service.acceptWatch]
  cases haccept : v.accept .watch path with
  | mk result service =>
    rw [haccept] at htree
    cases result with
    | error e => exact htree
    | ok u => exact htree

namespace Session

variable {s s' : Session} {x : Step}

/-- The session has the same templates, the same tree and the same events. -/
structure Reads (s s' : Session) : Prop where
  registry : s'.registry = s.registry
  tree : s'.work.service.tree = s.work.service.tree
  events : s'.work.service.events = s.work.service.events

theorem Reads.refl (s : Session) : Reads s s := ⟨rfl, rfl, rfl⟩

theorem Reads.trans (s s' s'' : Session) (h : Reads s s') (h' : Reads s' s'') : Reads s s'' where
  registry := h'.registry.trans h.registry
  tree := h'.tree.trans h.tree
  events := h'.events.trans h.events

theorem reads_reloadNow (key : String) (c : Coordinator) (s : Session) :
    Reads s (s.reloadNow key c).2 := by
  rw [reloadNow]
  cases c.rules.get? key with
  | none => exact .refl s
  | some rule =>
    obtain ⟨htree, hevents⟩ := rule.cycle_frame s.registry s.work
    exact ⟨rfl, htree, hevents⟩

theorem reads_react (key : String) (e : Event) (s : Session) : Reads s (s.react key e).2 := by
  unfold react
  split
  · exact .refl s
  · split
    · exact .refl s
    · exact reads_reloadNow key _ s

theorem reads_hear (l : Listener) (e : Event) (s : Session) : Reads s (s.hear l e).2 := by
  cases l with
  | recorder name =>
    rw [hear]
    cases s.recorders.get? name with
    | none => exact .refl s
    | some r => exact ⟨rfl, rfl, rfl⟩
  | coordinator key => exact (reads_react key e s).trans _ _ _ ⟨rfl, rfl, rfl⟩

theorem reads_deliverTo (w : Watch) (events : List Event) (s : Session) :
    Reads s (deliverTo w events s) := by
  refine deliverTo_preserves Reads.refl Reads.trans ?_ ?_ events s
  · intro e s _
    exact reads_hear w.listener e s
  · intro e s _
    exact (reads_hear w.listener e s).trans _ _ _ ⟨rfl, rfl, rfl⟩

theorem reads_settle (s : Session) : Reads s.hushed s.settle :=
  foldl_deliverTo_preserves Reads.refl Reads.trans
    (fun w _ => reads_deliverTo w (recent s.work.service.events)) s.hushed

/-! ## Steps and runs -/

theorem reads_watchRule (rule : ReloadRule) (c : Coordinator) (s : Session) :
    (s.watchRule rule c).2.registry = s.registry ∧
      (s.watchRule rule c).2.work.service.tree = s.work.service.tree := by
  have htree := Service.tree_acceptWatch rule.watch s.work.service
  have hwork : (s.release (.coordinator rule.watch)).work = s.work := rfl
  rw [watchRule]
  simp only [hwork]
  cases haccept : s.work.service.acceptWatch rule.watch with
  | mk result service =>
    rw [haccept] at htree
    cases result with
    | error e => exact ⟨rfl, htree⟩
    | ok u => exact ⟨rfl, htree⟩

theorem reads_runReload (r : ReloadStep) (c : Coordinator) (s : Session) :
    (s.runReload r c).2.registry = s.registry ∧
      (s.runReload r c).2.work.service.tree = s.work.service.tree := by
  cases r with
  | watch rule =>
    have hreads := reads_watchRule rule c s
    rw [runReload]
    cases hwatch : s.watchRule rule c with
    | mk result s' =>
      rw [hwatch] at hreads
      cases result with
      | error e => exact hreads
      | ok u => exact hreads
  | update key rule =>
    rw [runReload, updateRule]
    by_cases hwatched : c.rules.contains key = true
    · rw [if_pos hwatched]
      exact ⟨rfl, rfl⟩
    · rw [if_neg hwatched]
      exact ⟨rfl, rfl⟩
  | now key =>
    have hreads := reads_reloadNow key c s
    rw [runReload_now]
    exact ⟨hreads.registry, hreads.tree⟩
  | unwatch key | keys | isWatching key | rule key | shutdown => exact ⟨rfl, rfl⟩

theorem stopRecorder_frame (name : String) (signal : StopSignal) (s : Session) :
    (s.stopRecorder name signal).2.registry = s.registry ∧
      (s.stopRecorder name signal).2.work = s.work := by
  rw [stopRecorder]
  cases s.recorders.get? name with
  | none => exact ⟨rfl, rfl⟩
  | some r =>
    dsimp only
    by_cases hstop : r.stoppable = true
    · rw [if_pos hstop]
      cases signal <;> exact ⟨rfl, rfl⟩
    · rw [if_neg hstop]
      exact ⟨rfl, rfl⟩

/-- Whatever a step does, the templates stay and the tree remains sound. -/
theorem sound_act (x : Step) (h : s.work.service.tree.Sound) :
    (s.act x).2.registry = s.registry ∧ (s.act x).2.work.service.tree.Sound := by
  have hsame {s' : Session} (hregistry : s'.registry = s.registry)
      (htree : s'.work.service.tree = s.work.service.tree) :
      s'.registry = s.registry ∧ s'.work.service.tree.Sound := ⟨hregistry, by rwa [htree]⟩
  cases x with
  | call call => exact ⟨rfl, (s.work.service.change_answer call).sound h⟩
  | registry r =>
    have hsound := Service.sound_run (r.action s.registry).run h
    simp only [act, runRegistry]
    split <;> exact ⟨rfl, hsound⟩
  | refuseWrites start => exact ⟨rfl, h.of_cells rfl⟩
  | allowWrites => exact ⟨rfl, h.of_cells rfl⟩
  | watch name path keep =>
    simp only [act, watch]
    cases Tree.checkPath path with
    | error e => exact hsame rfl rfl
    | ok u => exact hsame rfl rfl
  | events name =>
    simp only [act, takeEvents]
    cases s.recorders.get? name with
    | none => exact hsame rfl rfl
    | some r => exact hsame rfl rfl
  | stop name signal =>
    obtain ⟨hregistry, hwork⟩ := stopRecorder_frame name signal s
    exact hsame hregistry (by rw [act, hwork])
  | reload r =>
    rw [act]
    cases s.coordinator with
    | none => exact hsame rfl rfl
    | some c =>
      obtain ⟨hregistry, htree⟩ := reads_runReload r c s
      exact hsame hregistry htree
  | poke path kind =>
    have hreads := reads_react path ⟨kind, path⟩ s
    simp only [act]
    split
    · exact hsame hreads.registry hreads.tree
    · exact hsame rfl rfl
  | size | dump | disconnect | fault f | active | handled | dropCoordinator =>
    exact hsame rfl rfl

/-- Between the steps of a run no event waits, the templates are those of the start, and the
tree is sound. -/
theorem sound_after (templates : TemplateSet) (files : Files) (steps : List Step) :
    ((start templates files).after steps).registry = ⟨templates⟩ ∧
      ((start templates files).after steps).work.service.tree.Sound ∧
      ((start templates files).after steps).work.service.events = [] := by
  induction steps using List.reverseRecOn with
  | nil => exact ⟨rfl, Tree.sound_empty, rfl⟩
  | append_singleton steps x ih =>
    obtain ⟨hregistry, hsound, -⟩ := ih
    obtain ⟨hregistry', hsound'⟩ := sound_act x hsound
    have hreads := reads_settle (((start templates files).after steps).act x).2
    rw [after_concat]
    refine ⟨hreads.registry.trans (hregistry'.trans hregistry), ?_, hreads.events⟩
    have htree : (((start templates files).after steps).step x).2.work.service.tree =
        (((start templates files).after steps).act x).2.work.service.tree := hreads.tree
    rw [htree]
    exact hsound'

end Session

end Coordination
