import Coordination.Proofs.Tree.Revision

/-!
# What calls do, node by node

A call that creates a node plants a chain of single nodes, each below one that is there; the
other writes touch one node and its parent. What each of the three does to every cell is said
once, together with the events that it causes, and so is what a call can do at all: it reads,
or fails without a trace, or plants, writes or removes. Runs of such calls, with writes
refused for a while or not, are described in terms of these effects.
-/

namespace Coordination

/-- The cell after that many more changes of the children. -/
def Cell.grow (n : Nat) (c : Cell) : Cell := { c with childVersion := c.childVersion + n }

namespace Tree

/-- The only cell of a new tree is that of the root. -/
theorem cell_of_empty {q : String} {c : Cell} (h : empty.cells.get? q = some c) :
    q = Path.root ∧ c = ⟨[], 0, 0⟩ := by
  rw [empty, OrderedMap.get?_insert] at h
  by_cases hq : q = Path.root
  · rw [if_pos hq] at h
    exact ⟨hq, (Option.some.inj h).symm⟩
  · rw [if_neg hq] at h
    cases h

/-! ## Cells after a single edit -/

/-- A place for a new node: a valid path without node, whose parent has one. -/
structure Vacant (t : Tree) (p parent : String) : Prop where
  valid : Path.isValid p = true
  child : Path.parent? p = some parent
  missing : ¬ t.Has p
  there : t.Has parent

section

variable {t : Tree} {p parent : String}

theorem get?_plant (hparent : Path.parent? p = some parent) (v : Bytes) (q : String) :
    (t.plant p v).1.cells.get? q =
      if q = p then some ⟨v, 0, 0⟩
      else if q = parent then (t.cells.get? q).map (Cell.grow 1)
      else t.cells.get? q := by
  have hne : parent ≠ p := by
    intro heq
    have hlt := Path.length_parent_lt hparent
    rw [heq] at hlt
    exact Nat.lt_irrefl _ hlt
  rw [plant, hparent]
  show (bumpChildren _ parent).cells.get? q = _
  rw [get?_bumpChildren, OrderedMap.get?_insert]
  by_cases hq : q = p
  · rw [if_pos hq, if_pos hq, if_neg]
    intro heq
    exact hne (heq.symm.trans hq)
  · rw [if_neg hq, if_neg hq]
    rfl

theorem events_plant (hparent : Path.parent? p = some parent) (v : Bytes) :
    (t.plant p v).2 = [⟨.childrenChanged, parent⟩, ⟨.created, p⟩] := by
  rw [plant, hparent]

theorem get?_written (c : Cell) (v : Bytes) (q : String) :
    (t.written p c v).cells.get? q =
      if q = p then some { c with value := v, version := c.version + 1 }
      else t.cells.get? q :=
  OrderedMap.get?_insert _ _ _ _

theorem get?_removed (t : Tree) (p parent q : String) :
    (t.removed p parent).cells.get? q =
      if q = p then none
      else if q = parent then (t.cells.get? q).map (Cell.grow 1)
      else t.cells.get? q := by
  rw [removed, get?_bumpChildren, OrderedMap.get?_erase]
  by_cases hq : q = p
  · rw [if_pos hq, if_pos hq, Option.map_none, ite_self]
  · rw [if_neg hq, if_neg hq]
    rfl

theorem sound_plant (ht : t.Sound) (h : t.Vacant p parent) (v : Bytes) :
    (t.plant p v).1.Sound where
  root := has_plant.2 (Or.inr ht.root)
  valid {q} hq := by
    rcases has_plant.1 hq with rfl | hhas
    · exact h.valid
    · exact ht.valid hhas
  parent {q a} hq ha := by
    rcases has_plant.1 hq with rfl | hhas
    · have hpa : a = parent := Option.some.inj (ha.symm.trans h.child)
      rw [hpa]
      exact has_plant.2 (Or.inr h.there)
    · exact has_plant.2 (Or.inr (ht.parent hhas ha))

end

/-! ## Chains of new nodes -/

/-- Single nodes that satisfy `P` are planted one after another, each below one that is
there; the events are those of all of them. -/
inductive Plants (P : String → Prop) (t : Tree) : List Event → Tree → Prop where
  | refl : Plants P t [] t
  | plant {t' : Tree} {es : List Event} {p parent : String} (h : Plants P t es t') (planted : P p)
    (place : t'.Vacant p parent) (v : Bytes) :
    Plants P t (es ++ [⟨.childrenChanged, parent⟩, ⟨.created, p⟩]) (t'.plant p v).1

theorem Plants.mono {P Q : String → Prop} {t t' : Tree} {es : List Event}
    (h : Plants P t es t') (hpq : ∀ p, P p → Q p) : Plants Q t es t' := by
  induction h with
  | refl => exact .refl
  | plant _ planted place v ih => exact .plant ih (hpq _ planted) place v

theorem Plants.sound {P : String → Prop} {t t' : Tree} {es : List Event}
    (h : Plants P t es t') (ht : t.Sound) : t'.Sound := by
  induction h with
  | refl => exact ht
  | plant _ _ place v ih => exact sound_plant ih place v

theorem has_plantAll {t : Tree} {l : List String} {q : String} :
    (t.plantAll l).1.Has q ↔ q ∈ l ∨ t.Has q := by
  rw [has_iff_value?, value?_plantAll, has_iff_value?]
  by_cases hq : q ∈ l <;> simp [hq]

theorem missingAncestors_of_has {t : Tree} {p parent : String}
    (hparent : Path.parent? p = some parent) (h : t.Has parent) : t.missingAncestors p = [] := by
  rw [missingAncestors, Path.ancestors_of_parent hparent]
  exact List.takeWhile_cons_of_neg (by simpa [Has] using h)

theorem missingAncestors_of_not_has {t : Tree} {p parent : String}
    (hparent : Path.parent? p = some parent) (h : ¬ t.Has parent) :
    t.missingAncestors p = parent :: t.missingAncestors parent := by
  rw [missingAncestors, Path.ancestors_of_parent hparent]
  exact List.takeWhile_cons_of_pos (by simpa [Has] using h)

/-- The paths that creating a node at `p` plants: itself and its missing ancestors. -/
def Planted (t : Tree) (p q : String) : Prop := q = p ∨ Path.Below q p ∧ ¬ t.Has q

/-- Creating a node with its missing ancestors is such a chain. -/
theorem plants_created {t : Tree} (ht : t.Sound) {p : String} (hp : Path.isValid p = true)
    (hmissing : ¬ t.Has p) (v : Bytes) :
    Plants (t.Planted p) t
      ((t.plantAll (t.missingAncestors p)).2 ++
        ((t.plantAll (t.missingAncestors p)).1.plant p v).2)
      (t.created p v) := by
  -- From the root down: the ancestors of a path are those of its parent and the parent, so
  -- planting the ancestors is creating the parent without a value.
  refine Path.valid_induction (P := fun p => ¬ t.Has p → ∀ v : Bytes, Plants (t.Planted p) t
      ((t.plantAll (t.missingAncestors p)).2 ++
        ((t.plantAll (t.missingAncestors p)).1.plant p v).2)
      (t.created p v)) ?_ ?_ hp hmissing v
  · intro hroot
    exact absurd ht.root hroot
  · intro parent p hp hparent ih hmissing v
    have hchain : Plants (t.Planted p) t (t.plantAll (t.missingAncestors p)).2
        (t.plantAll (t.missingAncestors p)).1 ∧
        (t.plantAll (t.missingAncestors p)).1.Has parent := by
      by_cases hhas : t.Has parent
      · rw [missingAncestors_of_has hparent hhas]
        exact ⟨.refl, hhas⟩
      · rw [missingAncestors_of_not_has hparent hhas]
        refine ⟨(ih hhas []).mono fun q hq => ?_, has_plantAll.2 (Or.inl List.mem_cons_self)⟩
        have hbelow := Path.below_of_parent hp hparent
        rcases hq with rfl | ⟨habove, hnot⟩
        · exact Or.inr ⟨hbelow, hhas⟩
        · exact Or.inr ⟨Path.below_trans habove hbelow, hnot⟩
    obtain ⟨hplants, hthere⟩ := hchain
    have hvacant : (t.plantAll (t.missingAncestors p)).1.Vacant p parent := by
      refine ⟨hp, hparent, fun hhas => ?_, hthere⟩
      rcases has_plantAll.1 hhas with hmem | hhas
      · obtain ⟨_, hbelow, _⟩ := (mem_missingAncestors_iff ht hp).1 hmem
        exact Path.not_below_self p hbelow
      · exact hmissing hhas
    rw [events_plant hparent v]
    exact .plant hplants (Or.inl rfl) hvacant v

/-! ## What a call does -/

/-- A call reads, or fails, or plants a chain of nodes, or replaces a value, or removes a node
without children. The events of a write name what it touches, in this order. -/
inductive Effect (t : Tree) : Call → List Event → Tree → Prop where
  | get (p : String) : Effect t (.get p) [] t
  | visit (p : String) (enter : Node → Bool) : Effect t (.visit p enter) [] t
  | fail {c : Call} {e : TreeError} (h : (t.answer c).1 = .error e) : Effect t c [] t
  | create {p : String} {v : Bytes} {es : List Event} {t' : Tree}
    (valid : Path.isValid p = true) (h : Plants (t.Planted p) t es t') :
    Effect t (.create p v) es t'
  | set {p : String} {c : Cell} (v : Bytes) (there : t.cells.get? p = some c) :
    Effect t (.set p v) [⟨.changed, p⟩] (t.written p c v)
  | delete {p parent : String} (done : (t.answer (.delete p)).1 = .ok ())
    (child : Path.parent? p = some parent) (there : t.Has p) (leaf : t.childPaths p = []) :
    Effect t (.delete p) [⟨.deleted, p⟩, ⟨.childrenChanged, parent⟩] (t.removed p parent)

theorem events_of_create {t : Tree} {p : String} {v : Bytes} {w : Written Node}
    (h : t.create p v = .ok w) :
    w.events = (t.plantAll (t.missingAncestors p)).2 ++
      ((t.plantAll (t.missingAncestors p)).1.plant p v).2 := by
  obtain ⟨_, _, h⟩ := exists_of_bind_eq_ok h
  obtain ⟨_, _, h⟩ := exists_of_bind_eq_ok h
  split at h
  · cases h
  · cases h
    rfl

theorem events_of_set {t : Tree} {p : String} {v : Bytes} {w : Written Node}
    (h : t.set p v = .ok w) : w.events = [⟨.changed, p⟩] := by
  obtain ⟨_, _, h⟩ := exists_of_bind_eq_ok h
  obtain ⟨_, _, h⟩ := exists_of_bind_eq_ok h
  obtain ⟨_, _, h⟩ := exists_of_bind_eq_ok h
  cases h
  rfl

theorem events_of_delete {t : Tree} {p parent : String} {w : Written Unit}
    (h : t.delete p = .ok w) (hparent : Path.parent? p = some parent) :
    w.events = [⟨.deleted, p⟩, ⟨.childrenChanged, parent⟩] := by
  obtain ⟨_, _, h⟩ := exists_of_bind_eq_ok h
  rw [hparent] at h
  obtain ⟨_, _, h⟩ := exists_of_bind_eq_ok h
  obtain ⟨_, _, h⟩ := exists_of_bind_eq_ok h
  split at h
  · cases h
  · cases h
    rfl

theorem effect_answer {t : Tree} (ht : t.Sound) (c : Call) :
    Effect t c (t.answer c).2.2 (t.answer c).2.1 := by
  cases c with
  | get p => exact .get p
  | visit p enter => exact .visit p enter
  | create p v =>
    show Effect t _ (Written.outcome t (t.create p v)).2.2 (Written.outcome t (t.create p v)).2.1
    cases h : t.create p v with
    | error e =>
      have hfail : (t.answer (.create p v)).1 = .error e := by rw [answer, h]; rfl
      exact .fail hfail
    | ok w =>
      obtain ⟨hp, hmissing, htree⟩ := created_of_create h
      show Effect t _ w.events w.tree
      rw [htree, events_of_create h]
      exact .create hp (plants_created ht hp hmissing v)
  | set p v =>
    show Effect t _ (Written.outcome t (t.set p v)).2.2 (Written.outcome t (t.set p v)).2.1
    cases h : t.set p v with
    | error e =>
      have hfail : (t.answer (.set p v)).1 = .error e := by rw [answer, h]; rfl
      exact .fail hfail
    | ok w =>
      obtain ⟨c, hc, htree⟩ := written_of_set h
      show Effect t _ w.events w.tree
      rw [htree, events_of_set h]
      exact .set v hc
  | delete p =>
    show Effect t _ (Written.outcome t (t.delete p)).2.2 (Written.outcome t (t.delete p)).2.1
    cases h : t.delete p with
    | error e =>
      have hfail : (t.answer (.delete p)).1 = .error e := by rw [answer, h]; rfl
      exact .fail hfail
    | ok w =>
      obtain ⟨parent, hparent, hhas, hleaf, htree⟩ := removed_of_delete h
      have hdone : (t.answer (.delete p)).1 = .ok () := by rw [answer, h]; rfl
      show Effect t _ w.events w.tree
      rw [htree, events_of_delete h hparent]
      exact .delete hdone hparent hhas hleaf

/-- A call that fails causes no event and leaves the tree as it is. -/
theorem answer_of_error {t : Tree} {c : Call} {e : TreeError}
    (h : (t.answer c).1 = .error e) : (t.answer c).2 = (t, []) := by
  have houtcome {α : Type} {x : Except TreeError (Written α)}
      (h : (Written.outcome t x).1 = .error e) : (Written.outcome t x).2 = (t, []) := by
    cases x with
    | error e' => rfl
    | ok w => cases h
  cases c with
  | get p => rfl
  | visit p enter => rfl
  | create p v => exact houtcome h
  | set p v => exact houtcome h
  | delete p => exact houtcome h

end Tree

/-! ## Runs of calls -/

/-- What is done to a tree in a run: a call, which may succeed or fail, or a change of the
writes that are refused. -/
inductive TreeStep where
  | call (c : Call)
  | refuseWrites (start : String)
  | allowWrites

namespace Tree

/-- The tree after a step, and the events of the step. -/
def step (t : Tree) : TreeStep → Tree × List Event
  | .call c => (t.answer c).2
  | .refuseWrites start => (t.lock start, [])
  | .allowWrites => (t.unlock, [])

/-- The tree after a run. -/
def after (t : Tree) (steps : List TreeStep) : Tree := steps.foldl (fun t s => (t.step s).1) t

end Tree

end Coordination
