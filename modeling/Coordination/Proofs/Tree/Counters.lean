import Coordination.Proofs.Tree.Effects

/-!
# What the counters of children count

A new child counts once in the revision of its parent, and a child that is deleted counts
once more while the parent has one child fewer. So in every tree that calls grow from the
root, the revision of a node is the number of its children and twice the number of those
deleted since the node was created. The sum is kept by every single node that is planted,
by every value that is replaced and by every node that is removed.
-/

namespace Coordination

namespace Path

theorem hasEmptyName_iff {s : List Char} : hasEmptyName s = true ↔ ['/', '/'] <:+: s := by
  induction s with
  | nil => simp [hasEmptyName]
  | cons c s ih =>
    rw [List.infix_cons_iff]
    cases s with
    | nil => simp [hasEmptyName]
    | cons d s =>
      by_cases hcd : c = '/' ∧ d = '/'
      · obtain ⟨rfl, rfl⟩ := hcd
        simp [hasEmptyName]
      · have hnot : ¬ ['/', '/'] <+: c :: d :: s := by
          intro hpre
          rw [List.cons_prefix_cons, List.cons_prefix_cons] at hpre
          exact hcd ⟨hpre.1.symm, hpre.2.1.symm⟩
        have hskip : hasEmptyName (c :: d :: s) = hasEmptyName (d :: s) := by
          rw [hasEmptyName]
          rintro rest rfl heq
          exact hcd ⟨rfl, (List.cons.inj heq).1⟩
        rw [hskip, ih]
        exact (or_iff_right hnot).symm

/-- A valid path is the root, or starts with a slash, does not end in one and has no two side
by side. -/
theorem isValid_iff_slashes {p : String} : isValid p = true ↔
    p = root ∨ (['/'] <+: p.toList ∧ ¬ ['/'] <:+ p.toList ∧ ¬ ['/', '/'] <:+: p.toList) := by
  simp only [isValid, Bool.or_eq_true, Bool.and_eq_true, Bool.not_eq_true', Bool.eq_false_iff,
    decide_eq_true_eq, ne_eq, hasEmptyName_iff, List.singleton_suffix_iff_getLast?_eq_some,
    List.singleton_prefix_iff_head?_eq_some, and_assoc]

end Path

namespace Tree

/-! ## Children after an edit -/

/-- Where one more node is there, it is one more child of its parent. -/
theorem childPaths_perm {t t' : Tree} (ht : t.Sound) (ht' : t'.Sound) {p parent q : String}
    (hparent : Path.parent? p = some parent) (hmissing : ¬ t.Has p)
    (hhas : ∀ c, t'.Has c ↔ c = p ∨ t.Has c) (hq : Path.isValid q = true) :
    (t'.childPaths q).Perm (if q = parent then p :: t.childPaths q else t.childPaths q) := by
  have hnew : p ∉ t.childPaths q := by
    intro hmem
    exact hmissing ((mem_childPaths_iff ht hq).1 hmem).1
  by_cases hqp : q = parent
  · rw [if_pos hqp]
    have hnodup : (p :: t.childPaths q).Nodup :=
      List.nodup_cons.2 ⟨hnew, nodup_childPaths ht hq⟩
    rw [List.perm_ext_iff_of_nodup (nodup_childPaths ht' hq) hnodup]
    intro c
    rw [List.mem_cons, mem_childPaths_iff ht' hq, mem_childPaths_iff ht hq, hhas]
    constructor
    · rintro ⟨rfl | hc, hcq⟩
      · exact Or.inl rfl
      · exact Or.inr ⟨hc, hcq⟩
    · rintro (rfl | ⟨hc, hcq⟩)
      · exact ⟨Or.inl rfl, by rw [hqp]; exact hparent⟩
      · exact ⟨Or.inr hc, hcq⟩
  · rw [if_neg hqp]
    rw [(childPaths_eq_iff ht ht' hq).2]
    intro c hcq
    have hcp : c ≠ p := by
      rintro rfl
      exact hqp (Option.some.inj (hcq.symm.trans hparent))
    rw [hhas]
    exact or_iff_right hcp

theorem length_childPaths {t t' : Tree} (ht : t.Sound) (ht' : t'.Sound) {p parent q : String}
    (hparent : Path.parent? p = some parent) (hmissing : ¬ t.Has p)
    (hhas : ∀ c, t'.Has c ↔ c = p ∨ t.Has c) (hq : Path.isValid q = true) :
    (t'.childPaths q).length = (t.childPaths q).length + if q = parent then 1 else 0 := by
  have hperm := (childPaths_perm ht ht' hparent hmissing hhas hq).length_eq
  rw [hperm]
  split <;> simp

/-! ## The tally -/

/-- Every node counts its children, and twice the children that it lost. Where there is no
node, nothing was lost. -/
structure Tally (t : Tree) (lost : String → Nat) : Prop where
  sound : t.Sound
  revision : ∀ {d c}, t.cells.get? d = some c →
    c.childVersion = (t.childPaths d).length + 2 * lost d
  absent : ∀ {d}, ¬ t.Has d → lost d = 0

variable {t : Tree} {lost : String → Nat}

theorem tally_empty : Tally empty fun _ => 0 := by
  refine ⟨sound_empty, ?_, fun _ => rfl⟩
  intro d c hc
  obtain ⟨rfl, rfl⟩ := cell_of_empty hc
  have hnil : empty.childPaths Path.root = [] := by decide
  rw [hnil]
  rfl

theorem Tally.plant (h : Tally t lost) {p parent : String} (place : t.Vacant p parent)
    (v : Bytes) : Tally (t.plant p v).1 lost := by
  have hsound := sound_plant h.sound place v
  have hlength {q : String} (hq : Path.isValid q = true) :=
    length_childPaths h.sound hsound place.child place.missing (fun c => has_plant) hq
  refine ⟨hsound, ?_, ?_⟩
  · intro d c hc
    have hd := hsound.valid (has_iff_get?.2 ⟨c, hc⟩)
    rw [get?_plant place.child] at hc
    rw [hlength hd]
    by_cases hdp : d = p
    · -- the new node has no children, for they would have had no parent
      rw [if_pos hdp] at hc
      cases hc
      have hnil : t.childPaths d = [] := by
        refine List.eq_nil_iff_forall_not_mem.2 fun c hc => ?_
        obtain ⟨hhas, hparent⟩ := (mem_childPaths_iff h.sound hd).1 hc
        exact place.missing (hdp ▸ h.sound.parent hhas hparent)
      have hne : d ≠ parent := by
        rintro rfl
        exact place.missing (hdp ▸ place.there)
      rw [hnil, if_neg hne, hdp, h.absent place.missing]
      rfl
    · rw [if_neg hdp] at hc
      by_cases hparent : d = parent
      · rw [if_pos hparent] at hc
        obtain ⟨before, hbefore, rfl⟩ := Option.map_eq_some_iff.1 hc
        have hcount := h.revision hbefore
        rw [if_pos hparent]
        show before.childVersion + 1 = _
        omega
      · rw [if_neg hparent] at hc
        rw [if_neg hparent, Nat.add_zero]
        exact h.revision hc
  · intro d hd
    refine h.absent fun hhas => hd ?_
    exact has_plant.2 (Or.inr hhas)

theorem Tally.plants {P : String → Prop} {es : List Event} {t' : Tree} (h : Tally t lost)
    (hplants : Plants P t es t') : Tally t' lost := by
  induction hplants with
  | refl => exact h
  | plant _ _ place v ih => exact ih.plant place v

theorem Tally.written (h : Tally t lost) {p : String} {c : Cell} (v : Bytes)
    (hc : t.cells.get? p = some c) : Tally (t.written p c v) lost := by
  have hsound := sound_written h.sound hc v
  refine ⟨hsound, ?_, ?_⟩
  · intro d c' hd
    have hvalid := hsound.valid (has_iff_get?.2 ⟨c', hd⟩)
    have hsame : (t.written p c v).childPaths d = t.childPaths d :=
      (childPaths_eq_iff h.sound hsound hvalid).2 fun _ _ => has_written hc
    rw [hsame]
    rw [get?_written] at hd
    by_cases hdp : d = p
    · rw [if_pos hdp] at hd
      cases hd
      have hcount := h.revision hc
      rw [hdp]
      exact hcount
    · rw [if_neg hdp] at hd
      exact h.revision hd
  · intro d hd
    exact h.absent fun hhas => hd ((has_written hc).2 hhas)

/-- A removed node is one child fewer and counts again. -/
theorem Tally.removed (h : Tally t lost) {p parent : String}
    (hparent : Path.parent? p = some parent) (hp : t.Has p) (hleaf : t.childPaths p = []) :
    Tally (t.removed p parent) fun d =>
      if (t.removed p parent).Has d then lost d + if d = parent then 1 else 0 else 0 := by
  have hsound := sound_removed h.sound hp hparent hleaf
  refine ⟨hsound, ?_, fun hd => if_neg hd⟩
  intro d c hc
  have hhas : (t.removed p parent).Has d := has_iff_get?.2 ⟨c, hc⟩
  have hlength : (t.childPaths d).length =
      ((t.removed p parent).childPaths d).length + if d = parent then 1 else 0 := by
    refine length_childPaths hsound h.sound hparent ?_ ?_ (hsound.valid hhas)
    · intro hnot
      exact (has_removed.1 hnot).1 rfl
    · intro q
      rw [has_removed]
      by_cases hq : q = p
      · simp [hq, hp]
      · simp [hq]
  rw [if_pos hhas]
  rw [get?_removed, if_neg (has_removed.1 hhas).1] at hc
  by_cases hd : d = parent
  · rw [if_pos hd] at hc hlength
    obtain ⟨before, hbefore, rfl⟩ := Option.map_eq_some_iff.1 hc
    have hcount := h.revision hbefore
    rw [if_pos hd]
    show before.childVersion + 1 = _
    omega
  · rw [if_neg hd] at hc hlength
    have hcount := h.revision hc
    rw [if_neg hd]
    omega

end Tree

/-! ## Runs -/

/-- The number of direct children of `d` that a step deletes. -/
def TreeStep.childrenDeleted (t : Tree) (d : String) : TreeStep → Nat
  | .call (.delete p) =>
    if Path.parent? p = some d ∧ (t.answer (.delete p)).1.isOk = true then 1 else 0
  | _ => 0

namespace Tree

/-- The number of direct children of `d` deleted in a run since `d` was created, if `count`
of them were before the run. A node that is not there has lost none. -/
def deletionsSince (d : String) (t : Tree) (count : Nat) : List TreeStep → Nat
  | [] => count
  | s :: steps =>
    deletionsSince d (t.step s).1
      (if (t.step s).1.Has d then count + s.childrenDeleted t d else 0) steps

theorem Tally.of_zero {t : Tree} {lost deleted : String → Nat} (h : Tally t lost)
    (hzero : ∀ d, deleted d = 0) : Tally t fun d => if t.Has d then lost d + deleted d else 0 := by
  have hsame : (fun d => if t.Has d then lost d + deleted d else 0) = lost := by
    funext d
    by_cases hd : t.Has d
    · rw [if_pos hd, hzero, Nat.add_zero]
    · rw [if_neg hd, h.absent hd]
  rw [hsame]
  exact h

theorem Tally.of_cells {t t' : Tree} {lost : String → Nat} (h : Tally t lost)
    (hcells : t'.cells = t.cells) : Tally t' lost := by
  have hhas (d : String) : t'.Has d ↔ t.Has d := by rw [Has, Has, hcells]
  refine ⟨h.sound.of_cells hcells, ?_, ?_⟩
  · intro d c hc
    rw [hcells] at hc
    have hsame : t'.childPaths d = t.childPaths d := by rw [childPaths, childPaths, hcells]
    rw [hsame]
    exact h.revision hc
  · intro d hd
    exact h.absent fun hnot => hd ((hhas d).2 hnot)

theorem Tally.effect {t t' : Tree} {lost : String → Nat} {c : Call} {es : List Event}
    (h : Tally t lost) (heffect : Effect t c es t') :
    Tally t' fun d =>
      if t'.Has d then lost d + TreeStep.childrenDeleted t d (.call c) else 0 := by
  cases heffect with
  | get p => exact h.of_zero fun _ => rfl
  | visit p enter => exact h.of_zero fun _ => rfl
  | fail herror =>
    refine h.of_zero fun d => ?_
    cases c with
    | delete p =>
      refine if_neg fun hdeletes => ?_
      rw [herror] at hdeletes
      exact Bool.false_ne_true hdeletes.2
    | get p => rfl
    | visit p enter => rfl
    | create p v => rfl
    | set p v => rfl
  | create _ hplants => exact (h.plants hplants).of_zero fun _ => rfl
  | set v hc => exact (h.written v hc).of_zero fun _ => rfl
  | @delete p parent done child there leaf =>
    have hdeleted (d : String) : TreeStep.childrenDeleted t d (.call (.delete p)) =
        if d = parent then 1 else 0 := by
      rw [TreeStep.childrenDeleted, done, child]
      by_cases hd : d = parent
      · rw [if_pos ⟨congrArg some hd.symm, rfl⟩, if_pos hd]
      · rw [if_neg fun h => hd (Option.some.inj h.1).symm, if_neg hd]
    simp only [hdeleted]
    exact h.removed child there leaf

theorem Tally.step {t : Tree} {lost : String → Nat} (h : Tally t lost) (s : TreeStep) :
    Tally (t.step s).1 fun d =>
      if (t.step s).1.Has d then lost d + s.childrenDeleted t d else 0 := by
  cases s with
  | call c => exact h.effect (effect_answer h.sound c)
  | refuseWrites start =>
    have hlocked : Tally (t.lock start) lost := h.of_cells rfl
    exact hlocked.of_zero fun _ => rfl
  | allowWrites =>
    have hunlocked : Tally t.unlock lost := h.of_cells rfl
    exact hunlocked.of_zero fun _ => rfl

theorem Tally.after {t : Tree} {lost : String → Nat} (h : Tally t lost)
    (steps : List TreeStep) :
    Tally (t.after steps) fun d => deletionsSince d t (lost d) steps := by
  induction steps generalizing t lost with
  | nil => exact h
  | cons s steps ih => exact ih (h.step s)

/-- In every tree that a run grows, the root is there, every path is valid, every node but
the root has its parent, and a node counts its children and twice those that were deleted
since it was created. -/
theorem counters_after (steps : List TreeStep) :
    (empty.after steps).Has Path.root ∧
      (∀ q, (empty.after steps).Has q →
        q = Path.root ∨ (['/'] <+: q.toList ∧ ¬ ['/'] <:+ q.toList ∧
          ¬ ['/', '/'] <:+: q.toList)) ∧
      (∀ q, (empty.after steps).Has q → q ≠ Path.root →
        ∃ p, Path.parent? q = some p ∧ (empty.after steps).Has p) ∧
      ∀ d n, (empty.after steps).node? d = some n →
        n.numChildren ≤ n.childVersion ∧
          n.childVersion - n.numChildren = 2 * deletionsSince d empty 0 steps := by
  have htally := tally_empty.after steps
  refine ⟨htally.sound.root, ?_, ?_, ?_⟩
  · intro q hq
    exact Path.isValid_iff_slashes.1 (htally.sound.valid hq)
  · intro q hq hroot
    obtain ⟨p, _, _, _, _, hparent⟩ := Path.exists_parent (htally.sound.valid hq) hroot
    exact ⟨p, hparent, htally.sound.parent hq hparent⟩
  · intro d n hn
    obtain ⟨c, hc, rfl⟩ := node?_eq_some_iff.1 hn
    have hcount := htally.revision hc
    show ((empty.after steps).childPaths d).length ≤ c.childVersion ∧
      c.childVersion - ((empty.after steps).childPaths d).length = _
    omega

/-- Of the two children that a node was given, one is left, and the deleted one counts twice. -/
example :
    let steps : List TreeStep :=
      [.call (.create "/a/b" []), .call (.create "/a/c" []), .call (.delete "/a/b")]
    deletionsSince "/a" empty 0 steps = 1 ∧ (empty.after steps).revision? "/a" = some 3 := by
  decide +kernel

end Tree

end Coordination
