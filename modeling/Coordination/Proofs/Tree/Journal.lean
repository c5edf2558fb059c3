import Coordination.Proofs.Tree.Effects
import Mathlib.Data.Finset.Dedup
import Mathlib.Data.Finset.Erase
import Mathlib.Data.Finset.Insert
import Mathlib.Data.List.DropRight

/-!
# The events of a run are its journal

The events of a run, in the order in which they are caused, tell the tree that the run ends
in: the paths that are there come from replaying what was created and deleted, and the two
counters of a node are numbers of events since the node was last created. Each effect of a
call keeps the two in step. No order among the events of different watches is asserted.
-/

namespace Coordination

namespace Event

/-- The paths that are there after an event. -/
def replay (paths : Finset String) (e : Event) : Finset String :=
  match e.kind with
  | .created => insert e.path paths
  | .deleted => paths.erase e.path
  | _ => paths

end Event

/-- The paths that are there after events, where at first only the root is. -/
def replay (es : List Event) : Finset String := es.foldl Event.replay {Path.root}

/-- The events after the last creation of a path, or all of them if it is never created. -/
def sinceCreated (p : String) (es : List Event) : List Event :=
  es.rtakeWhile (· ≠ ⟨.created, p⟩)

theorem replay_append (es es' : List Event) :
    replay (es ++ es') = es'.foldl Event.replay (replay es) := List.foldl_append

/-- What happens without a new creation is added to what happened since the last one. -/
theorem sinceCreated_append {p : String} (es : List Event) {es' : List Event}
    (h : ⟨.created, p⟩ ∉ es') : sinceCreated p (es ++ es') = sinceCreated p es ++ es' := by
  induction es' using List.reverseRecOn with
  | nil => rw [List.append_nil, List.append_nil]
  | append_singleton es' e ih =>
    rw [List.mem_append, not_or] at h
    have he : e ≠ ⟨.created, p⟩ := by
      rintro rfl
      exact h.2 List.mem_cons_self
    rw [← List.append_assoc, ← List.append_assoc, ← ih h.1, sinceCreated, sinceCreated]
    exact List.rtakeWhile_concat_pos _ _ _ (decide_eq_true he)

theorem sinceCreated_concat (p : String) (es : List Event) :
    sinceCreated p (es ++ [⟨.created, p⟩]) = [] :=
  List.rtakeWhile_concat_neg _ _ _ (by simp)

theorem sinceCreated_of_not_mem {p : String} {es : List Event} (h : ⟨.created, p⟩ ∉ es) :
    sinceCreated p es = es := by
  rw [sinceCreated, List.rtakeWhile_eq_self_iff]
  rintro e he
  refine decide_eq_true ?_
  rintro rfl
  exact h he

/-- The counters of a cell are numbers of events since the path was last created. -/
structure Cell.Counts (c : Cell) (q : String) (es : List Event) : Prop where
  version : c.version = (sinceCreated q es).count ⟨.changed, q⟩
  childVersion : c.childVersion = (sinceCreated q es).count ⟨.childrenChanged, q⟩

namespace Cell.Counts

variable {c c' : Cell} {q : String} {es es' : List Event}

/-- A cell that is new starts over. -/
theorem of_created (v : Bytes) (q : String) (es : List Event) :
    Counts ⟨v, 0, 0⟩ q (es ++ [⟨.created, q⟩]) := by
  constructor
  · rw [sinceCreated_concat]
    rfl
  · rw [sinceCreated_concat]
    rfl

/-- A cell that is there counts the further events of its own. -/
theorem append (h : c.Counts q es) (hthere : ⟨.created, q⟩ ∉ es')
    (hversion : c'.version = c.version + es'.count ⟨.changed, q⟩)
    (hchildren : c'.childVersion = c.childVersion + es'.count ⟨.childrenChanged, q⟩) :
    c'.Counts q (es ++ es') := by
  constructor
  · rw [sinceCreated_append es hthere, List.count_append, hversion, h.version]
  · rw [sinceCreated_append es hthere, List.count_append, hchildren, h.childVersion]

end Cell.Counts

namespace Tree

/-- The events tell the tree: which paths are there, and what their cells count. The root is
never created. -/
structure Recorded (es : List Event) (t : Tree) : Prop where
  sound : t.Sound
  paths : ∀ q, q ∈ replay es ↔ t.Has q
  counts : ∀ {q c}, t.cells.get? q = some c → c.Counts q es
  root : ⟨.created, Path.root⟩ ∉ es

variable {t t' : Tree} {es : List Event}

theorem recorded_empty : Recorded [] empty := by
  refine ⟨sound_empty, ?_, ?_, List.not_mem_nil⟩
  · intro q
    show q ∈ ({Path.root} : Finset String) ↔ empty.Has q
    rw [Finset.mem_singleton]
    constructor
    · rintro rfl
      exact sound_empty.root
    · intro hq
      obtain ⟨c, hc⟩ := has_iff_get?.1 hq
      exact (cell_of_empty hc).1
  · intro q c hc
    obtain ⟨_, rfl⟩ := cell_of_empty hc
    exact ⟨rfl, rfl⟩

/-- Where a child was created or deleted, the parent counts one more change of its children,
and all other cells that are still there count as before. -/
theorem Recorded.counts_beside (h : Recorded es t) {parent q : String} {c : Cell}
    {es' : List Event} (hthere : ⟨.created, q⟩ ∉ es') (hvalue : es'.count ⟨.changed, q⟩ = 0)
    (hchildren : es'.count ⟨.childrenChanged, q⟩ = if parent = q then 1 else 0)
    (hc : (if q = parent then (t.cells.get? q).map (Cell.grow 1) else t.cells.get? q) = some c) :
    c.Counts q (es ++ es') := by
  by_cases hparent : q = parent
  · rw [if_pos hparent] at hc
    rw [if_pos hparent.symm] at hchildren
    obtain ⟨before, hbefore, rfl⟩ := Option.map_eq_some_iff.1 hc
    refine (h.counts hbefore).append hthere ?_ ?_
    · simp [Cell.grow, hvalue]
    · simp [Cell.grow, hchildren]
  · rw [if_neg hparent] at hc
    rw [if_neg (Ne.symm hparent)] at hchildren
    refine (h.counts hc).append hthere ?_ ?_
    · simp [hvalue]
    · simp [hchildren]

/-- A new node starts over, and its parent counts one more change of its children. -/
theorem Recorded.plant (h : Recorded es t) {p parent : String} (place : t.Vacant p parent)
    (v : Bytes) :
    Recorded (es ++ [⟨.childrenChanged, parent⟩, ⟨.created, p⟩]) (t.plant p v).1 := by
  refine ⟨sound_plant h.sound place v, ?_, ?_, ?_⟩
  · intro q
    rw [replay_append, has_plant]
    show q ∈ insert p (replay es) ↔ _
    rw [Finset.mem_insert, h.paths]
  · intro q c hc
    rw [get?_plant place.child] at hc
    by_cases hq : q = p
    · rw [if_pos hq] at hc
      cases hc
      have hlast : es ++ [⟨.childrenChanged, parent⟩, ⟨.created, p⟩] =
          (es ++ [⟨.childrenChanged, parent⟩]) ++ [⟨.created, q⟩] := by simp [hq]
      rw [hlast]
      exact .of_created v q _
    · rw [if_neg hq] at hc
      refine h.counts_beside ?_ ?_ ?_ hc
      · simp [hq]
      · simp
      · simp [List.count_cons]
  · have hroot : p ≠ Path.root := Path.ne_root_of_parent place.child
    simp [h.root, hroot.symm]

theorem Recorded.plants {P : String → Prop} {es' : List Event} (h : Recorded es t)
    (hplants : Plants P t es' t') : Recorded (es ++ es') t' := by
  induction hplants with
  | refl =>
    rw [List.append_nil]
    exact h
  | plant _ _ place v ih =>
    rw [← List.append_assoc]
    exact ih.plant place v

theorem Recorded.written (h : Recorded es t) {p : String} {c : Cell} (v : Bytes)
    (hc : t.cells.get? p = some c) : Recorded (es ++ [⟨.changed, p⟩]) (t.written p c v) := by
  refine ⟨sound_written h.sound hc v, ?_, ?_, ?_⟩
  · intro q
    rw [replay_append, has_written hc]
    exact h.paths q
  · intro q c' hq
    rw [get?_written] at hq
    by_cases hqp : q = p
    · rw [if_pos hqp] at hq
      cases hq
      refine (h.counts (hqp ▸ hc)).append (by simp) ?_ ?_
      · simp [hqp]
      · simp
    · rw [if_neg hqp] at hq
      refine (h.counts hq).append (by simp) ?_ ?_
      · simp [Ne.symm hqp]
      · simp
  · simp [h.root]

theorem Recorded.removed (h : Recorded es t) {p parent : String}
    (hparent : Path.parent? p = some parent) (hp : t.Has p) (hleaf : t.childPaths p = []) :
    Recorded (es ++ [⟨.deleted, p⟩, ⟨.childrenChanged, parent⟩]) (t.removed p parent) := by
  refine ⟨sound_removed h.sound hp hparent hleaf, ?_, ?_, ?_⟩
  · intro q
    rw [replay_append, has_removed]
    show q ∈ (replay es).erase p ↔ _
    rw [Finset.mem_erase, h.paths]
  · intro q c hc
    rw [get?_removed] at hc
    by_cases hq : q = p
    · rw [if_pos hq] at hc
      cases hc
    · rw [if_neg hq] at hc
      refine h.counts_beside ?_ ?_ ?_ hc
      · simp
      · simp
      · simp [List.count_cons]
  · simp [h.root]

theorem Recorded.effect {c : Call} {es' : List Event} (h : Recorded es t)
    (heffect : Effect t c es' t') : Recorded (es ++ es') t' := by
  cases heffect with
  | get p =>
    rw [List.append_nil]
    exact h
  | visit p enter =>
    rw [List.append_nil]
    exact h
  | fail _ =>
    rw [List.append_nil]
    exact h
  | create _ hplants => exact h.plants hplants
  | set v hc => exact h.written v hc
  | delete _ hparent hp hleaf => exact h.removed hparent hp hleaf

theorem Recorded.of_cells (h : Recorded es t) (hcells : t'.cells = t.cells) :
    Recorded es t' := by
  refine ⟨h.sound.of_cells hcells, ?_, ?_, h.root⟩
  · intro q
    rw [h.paths, Has, Has, hcells]
  · intro q c hc
    exact h.counts (hcells ▸ hc)

theorem Recorded.step (h : Recorded es t) (s : TreeStep) :
    Recorded (es ++ (t.step s).2) (t.step s).1 := by
  cases s with
  | call c => exact h.effect (effect_answer h.sound c)
  | refuseWrites start =>
    show Recorded (es ++ []) (t.lock start)
    rw [List.append_nil]
    exact h.of_cells rfl
  | allowWrites =>
    show Recorded (es ++ []) t.unlock
    rw [List.append_nil]
    exact h.of_cells rfl

/-! ## Runs -/

/-- The events of a run. -/
def journal (t : Tree) : List TreeStep → List Event
  | [] => []
  | s :: steps => (t.step s).2 ++ (t.step s).1.journal steps

theorem Recorded.after (h : Recorded es t) (steps : List TreeStep) :
    Recorded (es ++ t.journal steps) (t.after steps) := by
  induction steps generalizing es t with
  | nil =>
    show Recorded (es ++ []) t
    rw [List.append_nil]
    exact h
  | cons s steps ih =>
    rw [journal, ← List.append_assoc]
    exact ih (h.step s)

/-- The events of a run on a new tree tell the tree that it ends in. The paths that are there
are those that a replay finds; a node was set as often as it changed since its last creation,
which for the root is the start, and so for its children; and a call that fails adds no event
and leaves the tree as it is. -/
theorem journal_tells_tree (steps : List TreeStep) :
    replay (empty.journal steps) = (empty.after steps).cells.keys.toFinset ∧
      (∀ q n, (empty.after steps).node? q = some n →
        n.version = (sinceCreated q (empty.journal steps)).count ⟨.changed, q⟩ ∧
          n.childVersion =
            (sinceCreated q (empty.journal steps)).count ⟨.childrenChanged, q⟩) ∧
      sinceCreated Path.root (empty.journal steps) = empty.journal steps ∧
      ∀ c e, ((empty.after steps).answer c).1 = .error e →
        (empty.after steps).step (.call c) = (empty.after steps, []) := by
  have hrecorded := recorded_empty.after steps
  rw [List.nil_append] at hrecorded
  refine ⟨?_, ?_, sinceCreated_of_not_mem hrecorded.root, ?_⟩
  · ext q
    rw [List.mem_toFinset, ← has_iff_mem_keys, hrecorded.paths]
  · intro q n hn
    obtain ⟨c, hc, rfl⟩ := node?_eq_some_iff.1 hn
    have hcounts := hrecorded.counts hc
    exact ⟨hcounts.version, hcounts.childVersion⟩
  · intro c e hfail
    exact answer_of_error hfail

/-- A new node and its missing parent, the parent first; then the node is gone. -/
example :
    let events := empty.journal [.call (.create "/a/b" []), .call (.delete "/a/b")]
    events = [⟨.childrenChanged, "/"⟩, ⟨.created, "/a"⟩, ⟨.childrenChanged, "/a"⟩,
      ⟨.created, "/a/b"⟩, ⟨.deleted, "/a/b"⟩, ⟨.childrenChanged, "/a"⟩] ∧
      replay events = {"/", "/a"} := by
  decide +kernel

end Tree

end Coordination
