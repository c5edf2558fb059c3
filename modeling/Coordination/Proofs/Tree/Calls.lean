import Coordination.Proofs.Tree.Children
import Coordination.Tree.Program

/-!
# What a call does to the tree

A tree is looked at through the values at its paths and the revisions of its nodes, the
counts of changes of their children. A call leaves the tree as it is, or creates a node with
its missing ancestors, or replaces a value, or removes a node without children; what each of
the three does to values and revisions is said once. All of them keep a sound tree sound, so
every tree that calls can grow from the root is sound.
-/

namespace Coordination

theorem eq_ok_of_toOption {ε α : Type} {x : Except ε α} {a : α} (h : x.toOption = some a) :
    x = .ok a := by
  cases x with
  | error e => cases h
  | ok b => exact congrArg Except.ok (Option.some.inj h)

namespace Tree

/-- The value at a path. -/
def value? (t : Tree) (q : String) : Option Bytes := (t.cells.get? q).map Cell.value

/-- The number of changes of the children of a node. -/
def revision? (t : Tree) (q : String) : Option Nat := (t.cells.get? q).map Cell.childVersion

theorem has_iff_value? {t : Tree} {q : String} : t.Has q ↔ ∃ v, t.value? q = some v := by
  rw [has_iff_get?, value?]
  cases t.cells.get? q <;> simp

theorem has_iff_revision? {t : Tree} {q : String} : t.Has q ↔ ∃ r, t.revision? q = some r := by
  rw [has_iff_get?, revision?]
  cases t.cells.get? q <;> simp

theorem value?_eq_none_iff {t : Tree} {q : String} : t.value? q = none ↔ ¬ t.Has q := by
  rw [not_has_iff, value?, Option.map_eq_none_iff]

theorem revision?_eq_none_iff {t : Tree} {q : String} : t.revision? q = none ↔ ¬ t.Has q := by
  rw [not_has_iff, revision?, Option.map_eq_none_iff]

/-- Where two trees agree in their values, the same paths have nodes. -/
theorem has_congr {t t' : Tree} {q : String} (h : t'.value? q = t.value? q) :
    t'.Has q ↔ t.Has q := by
  rw [has_iff_value?, has_iff_value?, h]

/-! ## Planting nodes -/

theorem get?_bumpChildren (t : Tree) (p q : String) :
    (t.bumpChildren p).cells.get? q =
      if q = p then (t.cells.get? q).map fun c => { c with childVersion := c.childVersion + 1 }
      else t.cells.get? q :=
  OrderedMap.get?_modify _ _ _ _

theorem value?_bumpChildren (t : Tree) (p q : String) :
    (t.bumpChildren p).value? q = t.value? q := by
  rw [value?, get?_bumpChildren, value?]
  split
  · rw [Option.map_map]
    rfl
  · rfl

theorem revision?_bumpChildren (t : Tree) (p q : String) :
    (t.bumpChildren p).revision? q =
      if q = p then (t.revision? q).map (· + 1) else t.revision? q := by
  rw [revision?, get?_bumpChildren, revision?]
  split
  · rw [Option.map_map, Option.map_map]
    rfl
  · rfl

theorem locked_plant (t : Tree) (p : String) (v : Bytes) : (t.plant p v).1.locked = t.locked := by
  rw [plant]
  split <;> rfl

theorem value?_plant (t : Tree) (p : String) (v : Bytes) (q : String) :
    (t.plant p v).1.value? q = if q = p then some v else t.value? q := by
  have hinsert : (Tree.mk (t.cells.insert p ⟨v, 0, 0⟩) t.locked).value? q =
      if q = p then some v else t.value? q := by
    rw [value?, OrderedMap.get?_insert]
    split <;> rfl
  rw [plant]
  split
  · rw [value?_bumpChildren]
    exact hinsert
  · exact hinsert

theorem revision?_plant (t : Tree) {p q : String} (v : Bytes) (hne : q ≠ p) :
    (t.plant p v).1.revision? q =
      if Path.parent? p = some q then (t.revision? q).map (· + 1) else t.revision? q := by
  have hinsert : (Tree.mk (t.cells.insert p ⟨v, 0, 0⟩) t.locked).revision? q =
      t.revision? q := by
    rw [revision?, OrderedMap.get?_insert, if_neg hne, revision?]
  rw [plant]
  cases hparent : Path.parent? p with
  | none =>
    rw [if_neg (by simp)]
    exact hinsert
  | some parent =>
    show (bumpChildren _ parent).revision? q = _
    rw [revision?_bumpChildren, hinsert]
    by_cases hq : q = parent
    · rw [if_pos hq, if_pos (by rw [hq])]
    · rw [if_neg hq, if_neg fun h => hq (Option.some.inj h).symm]

theorem revision?_plant_self (t : Tree) (p : String) (v : Bytes) :
    (t.plant p v).1.revision? p = some 0 := by
  have hinsert : (Tree.mk (t.cells.insert p ⟨v, 0, 0⟩) t.locked).revision? p = some 0 := by
    rw [revision?, OrderedMap.get?_insert_self]
    rfl
  rw [plant]
  cases hparent : Path.parent? p with
  | none => exact hinsert
  | some parent =>
    show (bumpChildren _ parent).revision? p = _
    rw [revision?_bumpChildren, hinsert, if_neg]
    rintro rfl
    exact Nat.lt_irrefl _ (Path.length_parent_lt hparent)

theorem has_plant {t : Tree} {p q : String} {v : Bytes} :
    (t.plant p v).1.Has q ↔ q = p ∨ t.Has q := by
  rw [has_iff_value?, value?_plant, has_iff_value?]
  by_cases hq : q = p <;> simp [hq]

theorem locked_plantAll (t : Tree) (l : List String) : (t.plantAll l).1.locked = t.locked := by
  induction l with
  | nil => rfl
  | cons p l ih => exact (locked_plant _ p []).trans ih

theorem value?_plantAll (t : Tree) (l : List String) (q : String) :
    (t.plantAll l).1.value? q = if q ∈ l then some [] else t.value? q := by
  induction l with
  | nil => rw [if_neg List.not_mem_nil]; rfl
  | cons p l ih =>
    show ((t.plantAll l).1.plant p []).1.value? q = _
    rw [value?_plant, ih]
    by_cases hq : q = p <;> by_cases hl : q ∈ l <;> simp [hq, hl]

theorem revision?_plantAll (t : Tree) {l : List String} {q : String} (hq : q ∉ l) :
    (t.plantAll l).1.revision? q =
      (t.revision? q).map (· + l.countP fun p => Path.parent? p = some q) := by
  induction l with
  | nil =>
    show t.revision? q = _
    cases t.revision? q <;> rfl
  | cons p l ih =>
    show ((t.plantAll l).1.plant p []).1.revision? q = _
    have hne : q ≠ p := by
      rintro rfl
      exact hq List.mem_cons_self
    rw [revision?_plant _ _ hne, ih fun h => hq (List.mem_cons_of_mem _ h), List.countP_cons]
    split
    · rename_i hparent
      rw [Option.map_map]
      simp [hparent, Function.comp_def, Nat.add_assoc]
    · rename_i hparent
      simp [hparent]

/-! ## Creating -/

theorem mem_missingAncestors_iff {t : Tree} (ht : t.Sound) {p q : String}
    (hp : Path.isValid p = true) :
    q ∈ t.missingAncestors p ↔ Path.isValid q = true ∧ Path.Below q p ∧ ¬ t.Has q := by
  refine Path.valid_induction (P := fun p => q ∈ t.missingAncestors p ↔
    Path.isValid q = true ∧ Path.Below q p ∧ ¬ t.Has q) ?_ ?_ hp
  · rw [missingAncestors, Path.ancestors_root]
    constructor
    · intro h
      cases h
    · rintro ⟨_, hbelow, _⟩
      exact absurd rfl hbelow.1
  · intro parent p hp hparent ih
    have hvalid := (Path.exists_name_of_parent hp hparent).1
    rw [missingAncestors, Path.ancestors_of_parent hparent]
    by_cases hhas : t.Has parent
    · rw [List.takeWhile_cons_of_neg (by simpa [Has] using hhas)]
      constructor
      · intro h
        cases h
      · rintro ⟨hq, hbelow, hmissing⟩
        rcases (Path.below_iff_of_parent hq hp hparent).1 hbelow with rfl | habove
        · exact absurd hhas hmissing
        · exact absurd (ht.ancestor hq hhas habove) hmissing
    · rw [List.takeWhile_cons_of_pos (by simpa [Has] using hhas), List.mem_cons]
      rw [missingAncestors] at ih
      rw [ih]
      constructor
      · rintro (rfl | ⟨hq, hbelow, hmissing⟩)
        · exact ⟨hvalid, Path.below_of_parent hp hparent, hhas⟩
        · exact ⟨hq, (Path.below_iff_of_parent hq hp hparent).2 (Or.inr hbelow), hmissing⟩
      · rintro ⟨hq, hbelow, hmissing⟩
        rcases (Path.below_iff_of_parent hq hp hparent).1 hbelow with rfl | habove
        · exact Or.inl rfl
        · exact Or.inr ⟨hq, habove, hmissing⟩

/-- The tree after a node was created. -/
def created (t : Tree) (p : String) (v : Bytes) : Tree :=
  ((t.plantAll (t.missingAncestors p)).1.plant p v).1

theorem locked_created (t : Tree) (p : String) (v : Bytes) :
    (t.created p v).locked = t.locked :=
  (locked_plant _ p v).trans (locked_plantAll _ _)

/-- A created node has its value, and its missing ancestors have the empty value. -/
theorem value?_created {t : Tree} (ht : t.Sound) {p : String} (hp : Path.isValid p = true)
    (v : Bytes) (q : String) :
    (t.created p v).value? q =
      if q = p then some v
      else if Path.isValid q = true ∧ Path.Below q p ∧ ¬ t.Has q then some []
      else t.value? q := by
  rw [created, value?_plant, value?_plantAll]
  simp only [mem_missingAncestors_iff ht hp]

theorem has_created {t : Tree} (ht : t.Sound) {p : String} (hp : Path.isValid p = true)
    {v : Bytes} {q : String} :
    (t.created p v).Has q ↔ q = p ∨ (Path.isValid q = true ∧ Path.Below q p) ∨ t.Has q := by
  rw [has_iff_value?, value?_created ht hp]
  by_cases hq : q = p
  · simp [hq]
  · by_cases hhas : t.Has q
    · simpa [hq, hhas] using has_iff_value?.1 hhas
    · by_cases hbelow : Path.isValid q = true ∧ Path.Below q p
      · simp [hq, hhas, hbelow.1, hbelow.2]
      · rw [if_neg hq, if_neg fun h => hbelow ⟨h.1, h.2.1⟩, value?_eq_none_iff.2 hhas]
        simp [hq, hhas, hbelow]

/-- The revision of a node moves by the number of its children that were created. -/
theorem revision?_created {t : Tree} (ht : t.Sound) {p d : String}
    (hp : Path.isValid p = true) (v : Bytes) (hd : t.Has d) (hne : d ≠ p) :
    (t.created p v).revision? d = (t.revision? d).map
      (· + (p :: t.missingAncestors p).countP fun q => Path.parent? q = some d) := by
  have hmissing : d ∉ t.missingAncestors p := fun h =>
    ((mem_missingAncestors_iff ht hp).1 h).2.2 hd
  rw [created, revision?_plant _ _ hne, revision?_plantAll _ hmissing, List.countP_cons]
  split
  · rename_i hparent
    rw [Option.map_map]
    simp [hparent, Function.comp_def, Nat.add_assoc]
  · rename_i hparent
    simp [hparent]

theorem sound_created {t : Tree} (ht : t.Sound) {p : String} (hp : Path.isValid p = true)
    (v : Bytes) : (t.created p v).Sound where
  root := (has_created ht hp).2 (Or.inr (Or.inr ht.root))
  valid {q} hq := by
    rcases (has_created ht hp).1 hq with rfl | ⟨hvalid, _⟩ | hhas
    · exact hp
    · exact hvalid
    · exact ht.valid hhas
  parent {q a} hq hparent := by
    rw [has_created ht hp] at hq ⊢
    rcases hq with rfl | ⟨hvalid, hbelow⟩ | hhas
    · have ha := (Path.exists_name_of_parent hp hparent).1
      exact Or.inr (Or.inl ⟨ha, Path.below_of_parent hp hparent⟩)
    · have ha := (Path.exists_name_of_parent hvalid hparent).1
      have haq := Path.below_of_parent hvalid hparent
      exact Or.inr (Or.inl ⟨ha, Path.below_trans haq hbelow⟩)
    · exact Or.inr (Or.inr (ht.parent hhas hparent))

/-- What a creation adds is the created node and nodes above it. -/
theorem new_of_created {t : Tree} (ht : t.Sound) {p q : String} (hp : Path.isValid p = true)
    {v : Bytes} (hq : (t.created p v).Has q) : t.Has q ∨ q = p ∨ Path.Below q p := by
  rcases (has_created ht hp).1 hq with heq | ⟨_, habove⟩ | hhas
  · exact Or.inr (Or.inl heq)
  · exact Or.inr (Or.inr habove)
  · exact Or.inl hhas

/-- A node that has children keeps some when another node is created. -/
theorem childPaths_created_ne_nil {t : Tree} (ht : t.Sound) {p q : String}
    (hp : Path.isValid p = true) (v : Bytes) (hq : t.Has q) (h : t.childPaths q ≠ []) :
    (t.created p v).childPaths q ≠ [] := by
  intro hnil
  refine h ((ht.childless_iff (ht.valid hq)).2 fun c hc => ?_)
  rw [(sound_created ht hp v).childless_iff (ht.valid hq)] at hnil
  exact hnil c ((has_created ht hp).2 (Or.inr (Or.inr hc)))

theorem childPaths_created_eq_nil {t : Tree} (ht : t.Sound) {p q : String}
    (hp : Path.isValid p = true) (v : Bytes) (hq : Path.isValid q = true)
    (hnone : ∀ c, t.Has c → ¬ Path.Below q c)
    (hnot : ¬ Path.Below q p) : (t.created p v).childPaths q = [] := by
  rw [(sound_created ht hp v).childless_iff hq]
  intro c hc hbelow
  rcases new_of_created ht hp hc with hhas | rfl | hcp
  · exact hnone c hhas hbelow
  · exact hnot hbelow
  · exact hnot (Path.below_trans hbelow hcp)

theorem value?_created_of_has {t : Tree} (ht : t.Sound) {p q : String} (hp : Path.isValid p = true)
    (hmissing : ¬ t.Has p) (v : Bytes) (hq : t.Has q) :
    (t.created p v).value? q = t.value? q := by
  have hne : q ≠ p := by
    rintro rfl
    exact hmissing hq
  rw [value?_created ht hp, if_neg hne, if_neg fun hnot => hnot.2.2 hq]

/-! ## Replacing a value -/

/-- The tree after a value was replaced. -/
def written (t : Tree) (p : String) (c : Cell) (v : Bytes) : Tree :=
  { t with cells := t.cells.insert p { c with value := v, version := c.version + 1 } }

theorem value?_written (t : Tree) (p : String) (c : Cell) (v : Bytes) (q : String) :
    (t.written p c v).value? q = if q = p then some v else t.value? q := by
  rw [value?, written, OrderedMap.get?_insert]
  split <;> rfl

theorem revision?_written {t : Tree} {p : String} {c : Cell} (hc : t.cells.get? p = some c)
    (v : Bytes) (q : String) : (t.written p c v).revision? q = t.revision? q := by
  rw [revision?, written, OrderedMap.get?_insert]
  split
  · rename_i hq
    rw [hq, revision?, hc]
    rfl
  · rfl

theorem has_written {t : Tree} {p : String} {c : Cell} (hc : t.cells.get? p = some c)
    {v : Bytes} {q : String} : (t.written p c v).Has q ↔ t.Has q := by
  rw [has_iff_revision?, revision?_written hc, ← has_iff_revision?]

theorem sound_written {t : Tree} (ht : t.Sound) {p : String} {c : Cell}
    (hc : t.cells.get? p = some c) (v : Bytes) : (t.written p c v).Sound where
  root := (has_written hc).2 ht.root
  valid hq := ht.valid ((has_written hc).1 hq)
  parent hq hparent := (has_written hc).2 (ht.parent ((has_written hc).1 hq) hparent)

/-! ## Removing -/

/-- The tree after a node was removed from below its parent. -/
def removed (t : Tree) (p parent : String) : Tree :=
  { t with cells := t.cells.erase p }.bumpChildren parent

theorem value?_removed (t : Tree) (p parent q : String) :
    (t.removed p parent).value? q = if q = p then none else t.value? q := by
  rw [removed, value?_bumpChildren, value?, OrderedMap.get?_erase]
  split <;> rfl

theorem has_removed {t : Tree} {p parent q : String} :
    (t.removed p parent).Has q ↔ q ≠ p ∧ t.Has q := by
  rw [has_iff_value?, value?_removed, has_iff_value?]
  by_cases hq : q = p <;> simp [hq]

theorem revision?_removed (t : Tree) {p q : String} (parent : String) (hne : q ≠ p) :
    (t.removed p parent).revision? q =
      if q = parent then (t.revision? q).map (· + 1) else t.revision? q := by
  have herase : (Tree.mk (t.cells.erase p) t.locked).revision? q = t.revision? q := by
    rw [revision?, OrderedMap.get?_erase, if_neg hne, revision?]
  rw [removed, revision?_bumpChildren, herase]

theorem sound_removed {t : Tree} (ht : t.Sound) {p parent : String} (hp : t.Has p)
    (hparent : Path.parent? p = some parent) (hleaf : t.childPaths p = []) :
    (t.removed p parent).Sound where
  root := has_removed.2 ⟨(Path.ne_root_of_parent hparent).symm, ht.root⟩
  valid hq := ht.valid (has_removed.1 hq).2
  parent {q a} hq ha := by
    obtain ⟨_, hhas⟩ := has_removed.1 hq
    refine has_removed.2 ⟨?_, ht.parent hhas ha⟩
    rintro rfl
    have hchild := (mem_childPaths_iff ht (ht.valid hp)).2 ⟨hhas, ha⟩
    rw [hleaf] at hchild
    cases hchild

/-- What is deleted leaves children to every node but its parent. -/
theorem childPaths_removed_ne_nil {t : Tree} (ht : t.Sound) {p q parent : String} (hp : t.Has p)
    (hparent : Path.parent? p = some parent) (hleaf : t.childPaths p = [])
    (hq : Path.isValid q = true) (hne : q ≠ parent) (h : t.childPaths q ≠ []) :
    (t.removed p parent).childPaths q ≠ [] := by
  obtain ⟨c, hc⟩ := List.exists_mem_of_ne_nil _ h
  obtain ⟨hhas, hcq⟩ := (mem_childPaths_iff ht hq).1 hc
  have hcp : c ≠ p := by
    rintro rfl
    exact hne (Option.some.inj (hcq.symm.trans hparent))
  have hmem := (mem_childPaths_iff (sound_removed ht hp hparent hleaf) hq).2
    ⟨has_removed.2 ⟨hcp, hhas⟩, hcq⟩
  exact List.ne_nil_of_mem hmem

theorem childPaths_removed_eq_nil {t : Tree} (ht : t.Sound) {p q parent : String} (hp : t.Has p)
    (hparent : Path.parent? p = some parent) (hleaf : t.childPaths p = [])
    (hq : Path.isValid q = true) (h : t.childPaths q = []) :
    (t.removed p parent).childPaths q = [] := by
  rw [(sound_removed ht hp hparent hleaf).childless_iff hq]
  rw [ht.childless_iff hq] at h
  exact fun c hc => h c (has_removed.1 hc).2

/-! ## Answers -/

/-- The answer to a call, and the tree after it. -/
def respond (c : Call) (t : Tree) : Except TreeError c.Reply × Tree :=
  ((t.answer c).1, (t.answer c).2.1)

theorem checkPath_of_valid {p : String} (hp : Path.isValid p = true) : checkPath p = .ok () :=
  if_pos hp

theorem checkWritable_of_unlocked {t : Tree} (ht : t.locked = none) (p : String) :
    t.checkWritable p = .ok () := by
  rw [checkWritable, ht]

theorem cell_of_get? {t : Tree} {p : String} {c : Cell} (hc : t.cells.get? p = some c) :
    t.cell p = .ok c := by
  rw [cell, hc]

theorem cell_of_not_has {t : Tree} {p : String} (h : ¬ t.Has p) :
    t.cell p = .error (.notFound p) := by
  rw [cell, not_has_iff.1 h]

/-! ## Answers where nothing is refused -/

section

variable {t : Tree} {p : String}

theorem respond_get_of_get? {c : Cell} (hp : Path.isValid p = true)
    (hc : t.cells.get? p = some c) : t.respond (.get p) = (.ok (t.nodeOf p c), t) := by
  have hget : t.get p = .ok (t.nodeOf p c) := by
    rw [get, checkPath_of_valid hp, cell_of_get? hc]
    rfl
  show (t.get p, t) = _
  rw [hget]

theorem respond_get_of_not_has (hp : Path.isValid p = true) (h : ¬ t.Has p) :
    t.respond (.get p) = (.error (.notFound p), t) := by
  have hget : t.get p = .error (.notFound p) := by
    rw [get, checkPath_of_valid hp, cell_of_not_has h]
    rfl
  show (t.get p, t) = _
  rw [hget]

theorem respond_visit (hp : Path.isValid p = true) (h : t.Has p) (enter : Node → Bool) :
    t.respond (.visit p enter) = (.ok (t.nodesBelow enter p), t) := by
  obtain ⟨c, hc⟩ := has_iff_get?.1 h
  have hvisit : t.visit p enter = .ok (t.nodesBelow enter p) := by
    rw [visit, checkPath_of_valid hp, cell_of_get? hc]
    rfl
  show (t.visit p enter, t) = _
  rw [hvisit]

/-- A write that succeeds answers its result and leaves its tree. -/
theorem respond_of_outcome {α : Type} {x : Except TreeError (Written α)} {a : α} {t' : Tree}
    {events : List Event} (h : x = .ok ⟨a, t', events⟩) :
    ((Written.outcome t x).1, (Written.outcome t x).2.1) = (.ok a, t') := by
  rw [h]
  rfl

theorem respond_create_of_has (ht : t.locked = none) (hp : Path.isValid p = true)
    (h : t.Has p) (v : Bytes) : t.respond (.create p v) = (.error (.alreadyExists p), t) := by
  have hcreate : t.create p v = .error (.alreadyExists p) := by
    rw [create, checkPath_of_valid hp, checkWritable_of_unlocked ht]
    exact if_pos h
  show ((Written.outcome t (t.create p v)).1, (Written.outcome t (t.create p v)).2.1) = _
  rw [hcreate]
  rfl

theorem respond_create_of_not_has (ht : t.locked = none) (hp : Path.isValid p = true)
    (h : ¬ t.Has p) (v : Bytes) : ∃ n, t.respond (.create p v) = (.ok n, t.created p v) := by
  have hcreate : ∃ events, t.create p v =
      .ok ⟨(t.created p v).nodeOf p ⟨v, 0, 0⟩, t.created p v, events⟩ := by
    rw [create, checkPath_of_valid hp, checkWritable_of_unlocked ht]
    exact ⟨_, if_neg h⟩
  obtain ⟨events, hcreate⟩ := hcreate
  exact ⟨_, respond_of_outcome hcreate⟩

theorem respond_set_of_get? {c : Cell} (ht : t.locked = none) (hp : Path.isValid p = true)
    (hc : t.cells.get? p = some c) (v : Bytes) :
    ∃ n, t.respond (.set p v) = (.ok n, t.written p c v) := by
  have hset : ∃ n events, t.set p v = .ok ⟨n, t.written p c v, events⟩ := by
    rw [set, checkPath_of_valid hp, checkWritable_of_unlocked ht, cell_of_get? hc]
    exact ⟨_, _, rfl⟩
  obtain ⟨n, events, hset⟩ := hset
  exact ⟨n, respond_of_outcome hset⟩

theorem respond_delete_of_leaf {parent : String} (ht : t.locked = none)
    (hp : Path.isValid p = true) (h : t.Has p) (hparent : Path.parent? p = some parent)
    (hleaf : t.childPaths p = []) :
    t.respond (.delete p) = (.ok (), t.removed p parent) := by
  obtain ⟨c, hc⟩ := has_iff_get?.1 h
  have hdelete : ∃ events, t.delete p = .ok ⟨(), t.removed p parent, events⟩ := by
    simp only [delete, checkPath_of_valid hp, hparent, checkWritable_of_unlocked ht,
      cell_of_get? hc]
    exact ⟨_, if_neg fun h => h hleaf⟩
  obtain ⟨events, hdelete⟩ := hdelete
  exact respond_of_outcome hdelete

end

/-! ## What answers tell -/

theorem exists_of_bind_eq_ok {ε α β : Type} {x : Except ε α} {f : α → Except ε β} {b : β}
    (h : (x >>= f) = .ok b) : ∃ a, x = .ok a ∧ f a = .ok b := by
  cases x with
  | error e => cases h
  | ok a => exact ⟨a, rfl, h⟩

theorem isValid_of_checkPath {p : String} {u : Unit} (h : checkPath p = .ok u) :
    Path.isValid p = true := by
  rw [checkPath] at h
  split at h
  · assumption
  · cases h

theorem get?_of_cell {t : Tree} {p : String} {c : Cell} (h : t.cell p = .ok c) :
    t.cells.get? p = some c := by
  rw [cell] at h
  split at h
  · rename_i c' hc
    cases h
    exact hc
  · cases h

theorem exists_get?_of_get {t : Tree} {p : String} {n : Node} (h : t.get p = .ok n) :
    ∃ c, t.cells.get? p = some c ∧ n = t.nodeOf p c := by
  obtain ⟨_, _, h⟩ := exists_of_bind_eq_ok h
  obtain ⟨c, hc, h⟩ := exists_of_bind_eq_ok h
  cases h
  exact ⟨c, get?_of_cell hc, rfl⟩

theorem created_of_create {t : Tree} {p : String} {v : Bytes} {w : Written Node}
    (h : t.create p v = .ok w) :
    Path.isValid p = true ∧ ¬ t.Has p ∧ w.tree = t.created p v := by
  obtain ⟨_, hp, h⟩ := exists_of_bind_eq_ok h
  obtain ⟨_, _, h⟩ := exists_of_bind_eq_ok h
  split at h
  · cases h
  · rename_i hhas
    cases h
    exact ⟨isValid_of_checkPath hp, hhas, rfl⟩

theorem written_of_set {t : Tree} {p : String} {v : Bytes} {w : Written Node}
    (h : t.set p v = .ok w) : ∃ c, t.cells.get? p = some c ∧ w.tree = t.written p c v := by
  obtain ⟨_, _, h⟩ := exists_of_bind_eq_ok h
  obtain ⟨_, _, h⟩ := exists_of_bind_eq_ok h
  obtain ⟨c, hc, h⟩ := exists_of_bind_eq_ok h
  cases h
  exact ⟨c, get?_of_cell hc, rfl⟩

theorem removed_of_delete {t : Tree} {p : String} {w : Written Unit} (h : t.delete p = .ok w) :
    ∃ parent, Path.parent? p = some parent ∧ t.Has p ∧ t.childPaths p = [] ∧
      w.tree = t.removed p parent := by
  obtain ⟨_, _, h⟩ := exists_of_bind_eq_ok h
  split at h
  · cases h
  · rename_i parent hparent
    obtain ⟨_, _, h⟩ := exists_of_bind_eq_ok h
    obtain ⟨c, hc, h⟩ := exists_of_bind_eq_ok h
    split at h
    · cases h
    · rename_i hleaf
      cases h
      exact ⟨parent, hparent, has_iff_get?.2 ⟨c, get?_of_cell hc⟩,
        Decidable.not_not.1 hleaf, rfl⟩

/-- What a tree can turn into by one call. -/
inductive Change (t : Tree) : Call → Tree → Prop where
  | none (c : Call) : Change t c t
  | create {p : String} (v : Bytes) (valid : Path.isValid p = true) (missing : ¬ t.Has p) :
    Change t (.create p v) (t.created p v)
  | set {p : String} {c : Cell} (v : Bytes) (there : t.cells.get? p = some c) :
    Change t (.set p v) (t.written p c v)
  | delete {p parent : String} (child : Path.parent? p = some parent) (there : t.Has p)
    (leaf : t.childPaths p = []) : Change t (.delete p) (t.removed p parent)

theorem change_respond (t : Tree) (c : Call) : Change t c (t.respond c).2 := by
  cases c with
  | get p => exact .none _
  | visit p enter => exact .none _
  | create p v =>
    show Change t _ (Written.outcome t (t.create p v)).2.1
    cases h : t.create p v with
    | error e => exact .none _
    | ok w =>
      obtain ⟨hp, hhas, htree⟩ := created_of_create h
      show Change t _ w.tree
      rw [htree]
      exact .create v hp hhas
  | set p v =>
    show Change t _ (Written.outcome t (t.set p v)).2.1
    cases h : t.set p v with
    | error e => exact .none _
    | ok w =>
      obtain ⟨c, hc, htree⟩ := written_of_set h
      show Change t _ w.tree
      rw [htree]
      exact .set v hc
  | delete p =>
    show Change t _ (Written.outcome t (t.delete p)).2.1
    cases h : t.delete p with
    | error e => exact .none _
    | ok w =>
      obtain ⟨parent, hparent, hhas, hleaf, htree⟩ := removed_of_delete h
      show Change t _ w.tree
      rw [htree]
      exact .delete hparent hhas hleaf

theorem Change.sound {t t' : Tree} {c : Call} (h : Change t c t') (ht : t.Sound) : t'.Sound := by
  cases h with
  | none c => exact ht
  | create v hp hhas => exact sound_created ht hp v
  | set v hc => exact sound_written ht hc v
  | delete hparent hhas hleaf => exact sound_removed ht hhas hparent hleaf

theorem Change.locked {t t' : Tree} {c : Call} (h : Change t c t') : t'.locked = t.locked := by
  cases h with
  | none c => rfl
  | create v hp hhas => exact locked_created t _ v
  | set v hc => rfl
  | delete hparent hhas hleaf => rfl

/-! ## Reachable trees -/

/-- The trees that calls grow from the root, while writes are refused and allowed again. -/
inductive Reachable : Tree → Prop where
  | empty : Reachable .empty
  | call {t : Tree} (c : Call) (h : Reachable t) : Reachable (t.respond c).2
  | lock {t : Tree} (start : String) (h : Reachable t) : Reachable (t.lock start)
  | unlock {t : Tree} (h : Reachable t) : Reachable t.unlock

theorem Sound.of_cells {t t' : Tree} (ht : t.Sound) (h : t'.cells = t.cells) : t'.Sound := by
  have hhas (q : String) : t'.Has q ↔ t.Has q := by rw [Has, Has, h]
  exact ⟨(hhas _).2 ht.root, fun hq => ht.valid ((hhas _).1 hq),
    fun hq hparent => (hhas _).2 (ht.parent ((hhas _).1 hq) hparent)⟩

theorem sound_empty : empty.Sound := by
  have hroot {q : String} (h : empty.Has q) : q = Path.root := by
    rw [has_iff_get?, empty, OrderedMap.get?_insert] at h
    by_cases hq : q = Path.root
    · exact hq
    · simp [hq] at h
  refine ⟨by decide, fun h => ?_, fun h hparent => ?_⟩
  · rw [hroot h]
    exact Path.isValid_root
  · rw [hroot h, Path.parent?_root] at hparent
    cases hparent

theorem Reachable.sound {t : Tree} (h : Reachable t) : t.Sound := by
  induction h with
  | empty => exact sound_empty
  | call c _ ih => exact (change_respond _ c).sound ih
  | lock start _ ih => exact ih.of_cells rfl
  | unlock _ ih => exact ih.of_cells rfl

end Tree

end Coordination
