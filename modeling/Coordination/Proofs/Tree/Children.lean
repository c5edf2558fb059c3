import Coordination.Proofs.OrderedMap
import Coordination.Proofs.Path.Below

/-!
# Children and descendants

The scan for the children of a path stops at the first path that does not start as a child
does. Since paths that share a start are neighbours in the order of paths, nothing is cut
off: where all paths are valid the scan lists exactly the paths whose parent is the given
one, in ascending order. Where also every parent exists, a walk meets exactly the nodes below
its start to which it enters every node on the way, and below every node there is one
without children.
-/

namespace Coordination

namespace Path

theorem not_lt_of_prefix {s k : List Char} (h : s <+: k) : ¬ k < s := by
  induction s generalizing k with
  | nil => exact List.not_lt_nil k
  | cons c s ih =>
    obtain ⟨rest, rfl⟩ := h
    rw [List.cons_append, List.cons_lt_cons_iff]
    rintro (hlt | ⟨_, hlt⟩)
    · exact absurd hlt (Nat.lt_irrefl _)
    · exact ih (List.prefix_append s rest) hlt

/-- Between a start and a text with that start there are only texts with that start. -/
theorem prefix_of_between {s k k' : List Char} (hstart : s <+: k') (hge : ¬ k < s)
    (hlt : k < k') : s <+: k := by
  induction s generalizing k k' with
  | nil => exact List.nil_prefix
  | cons c s ih =>
    obtain ⟨rest, rfl⟩ := hstart
    cases k with
    | nil => exact absurd (List.nil_lt_cons c s) hge
    | cons d k =>
      rw [List.cons_append, List.cons_lt_cons_iff] at hlt
      rw [List.cons_lt_cons_iff] at hge
      rcases hlt with hdc | ⟨rfl, hlt⟩
      · exact absurd (Or.inl hdc) hge
      · have hs : s <+: k := by
          refine ih (List.prefix_append s rest) (fun hks => ?_) hlt
          exact hge (Or.inr ⟨rfl, hks⟩)
        exact List.cons_prefix_cons.2 ⟨rfl, hs⟩

theorem takeWhile_eq_filter {l : List String} (start : String) (h : l.Pairwise (· < ·))
    (hge : ∀ k ∈ l, ¬ k < start) :
    l.takeWhile (startsWith start) = l.filter (startsWith start) := by
  induction l with
  | nil => rfl
  | cons k l ih =>
    obtain ⟨hk, hl⟩ := List.pairwise_cons.1 h
    have htail := ih hl fun k' hk' => hge k' (List.mem_cons_of_mem _ hk')
    by_cases hstart : startsWith start k = true
    · rw [List.takeWhile_cons_of_pos hstart, List.filter_cons_of_pos hstart, htail]
    · have hnone : l.filter (startsWith start) = [] := by
        refine List.filter_eq_nil_iff.2 fun k' hk' hstart' => hstart ?_
        exact startsWith_iff.2 (prefix_of_between (startsWith_iff.1 hstart')
          (hge k List.mem_cons_self) (hk k' hk'))
      rw [List.takeWhile_cons_of_neg hstart, List.filter_cons_of_neg hstart, hnone]

/-- Scanning an ascending list from a start on finds every text with that start. -/
theorem scan_eq_filter {l : List String} (start : String) (h : l.Pairwise (· < ·)) :
    (l.dropWhile (· < start)).takeWhile (startsWith start) =
      l.filter (startsWith start) := by
  induction l with
  | nil => rfl
  | cons k l ih =>
    obtain ⟨hk, hl⟩ := List.pairwise_cons.1 h
    by_cases hlt : k < start
    · have hstart : ¬ startsWith start k = true := fun hstart =>
        not_lt_of_prefix (startsWith_iff.1 hstart) hlt
      rw [List.dropWhile_cons_of_pos (by simpa using hlt), List.filter_cons_of_neg hstart,
        ih hl]
    · rw [List.dropWhile_cons_of_neg (by simpa using hlt)]
      refine takeWhile_eq_filter start h fun k' hk' hlt' => ?_
      rcases List.mem_cons.1 hk' with rfl | hk'
      · exact hlt hlt'
      · exact hlt (String.lt_trans (hk k' hk') hlt')

end Path

namespace Tree

/-- Whether there is a node at the path. -/
def Has (t : Tree) (path : String) : Prop := t.cells.contains path = true

instance (t : Tree) (path : String) : Decidable (t.Has path) :=
  inferInstanceAs (Decidable (_ = true))

/-- What every tree grown from the root by single calls satisfies: the root exists, all
paths are valid, and every parent exists. -/
structure Sound (t : Tree) : Prop where
  root : t.Has Path.root
  valid : ∀ {q}, t.Has q → Path.isValid q = true
  parent : ∀ {q p}, t.Has q → Path.parent? q = some p → t.Has p

theorem Sound.ne_root_of_not_has {t : Tree} {q : String} (ht : t.Sound) (h : ¬ t.Has q) :
    q ≠ Path.root := by
  rintro rfl
  exact h ht.root

theorem has_iff_mem_keys {t : Tree} {q : String} : t.Has q ↔ q ∈ t.cells.keys :=
  OrderedMap.contains_iff_mem_keys

theorem has_iff_get? {t : Tree} {q : String} : t.Has q ↔ ∃ c, t.cells.get? q = some c :=
  Option.isSome_iff_exists

theorem not_has_iff {t : Tree} {q : String} : ¬ t.Has q ↔ t.cells.get? q = none := by
  rw [Has, OrderedMap.contains, Bool.not_eq_true, Option.isSome_eq_false_iff,
    Option.isNone_iff_eq_none]

/-- All paths of the tree name nodes. -/
def WellNamed (t : Tree) : Prop := ∀ q, t.Has q → Path.isValid q = true

instance (t : Tree) : Decidable t.WellNamed :=
  decidable_of_iff (∀ q ∈ t.cells.keys, Path.isValid q = true)
    ⟨fun h q hq => h q (has_iff_mem_keys.1 hq), fun h q hq => h q (has_iff_mem_keys.2 hq)⟩

/-- No node but the root lacks its parent. -/
def NoOrphans (t : Tree) : Prop := ∀ q p, t.Has q → Path.parent? q = some p → t.Has p

instance (t : Tree) : Decidable t.NoOrphans :=
  decidable_of_iff (∀ q ∈ t.cells.keys, ∀ p ∈ Path.parent? q, t.Has p)
    ⟨fun h q p hq hp => h q (has_iff_mem_keys.1 hq) p hp,
      fun h q hq p hp => h q p (has_iff_mem_keys.2 hq) hp⟩

theorem Sound.wellNamed {t : Tree} (ht : t.Sound) : t.WellNamed := fun _ => ht.valid

theorem Sound.noOrphans {t : Tree} (ht : t.Sound) : t.NoOrphans := fun _ _ => ht.parent

/-! ## Children -/

/-- One name leads from a path to what starts as a child does and goes on without slash. -/
theorem isChild_iff {p c : String} (hp : Path.isValid p = true) (hc : Path.isValid c = true) :
    (c ≠ Path.root ∧ Path.startsWith (Path.childStart p) c = true ∧
      '/' ∉ c.toList.drop (Path.childStart p).length) ↔ Path.parent? c = some p := by
  have hdrop (r : String) :
      (Path.childStart p ++ r).toList.drop (Path.childStart p).length = r.toList := by
    rw [String.toList_append, ← String.length_toList, List.drop_left]
  constructor
  · rintro ⟨hroot, hstart, hslash⟩
    have hbelow : Path.Below p c := ⟨hroot, hstart⟩
    obtain ⟨r, hr, rfl⟩ := hbelow.exists_relative hp hc
    rw [hdrop] at hslash
    exact Path.parent?_append hp ⟨hr.ne_empty, hslash⟩
  · intro hparent
    have hbelow := Path.below_of_parent hc hparent
    obtain ⟨_, n, hn, rfl⟩ := Path.exists_name_of_parent hc hparent
    exact ⟨hbelow.1, hbelow.2, by rw [hdrop]; exact hn.2⟩

/-- The scan for children lists the paths with the given parent, in ascending order. -/
theorem WellNamed.childPaths_eq_filter {t : Tree} (ht : t.WellNamed) {p : String}
    (hp : Path.isValid p = true) :
    t.childPaths p = t.cells.keys.filter fun c => Path.parent? c = some p := by
  rw [childPaths, OrderedMap.map_fst_startingAt,
    Path.scan_eq_filter _ (OrderedMap.pairwise_keys _), List.filter_filter]
  refine List.filter_congr fun c hmem => ?_
  have hc : Path.isValid c = true := ht c (has_iff_mem_keys.2 hmem)
  rw [Bool.eq_iff_iff]
  simp only [Bool.and_eq_true, decide_eq_true_eq, Bool.not_eq_true', List.contains_eq_mem,
    decide_eq_false_iff_not]
  rw [← isChild_iff hp hc]
  constructor
  · rintro ⟨⟨hroot, hslash⟩, hstart⟩
    exact ⟨hroot, hstart, hslash⟩
  · rintro ⟨hroot, hstart, hslash⟩
    exact ⟨⟨hroot, hslash⟩, hstart⟩

theorem WellNamed.mem_childPaths_iff {t : Tree} (ht : t.WellNamed) {p c : String}
    (hp : Path.isValid p = true) :
    c ∈ t.childPaths p ↔ t.Has c ∧ Path.parent? c = some p := by
  rw [ht.childPaths_eq_filter hp, List.mem_filter, has_iff_mem_keys, decide_eq_true_eq]

theorem WellNamed.pairwise_childPaths {t : Tree} (ht : t.WellNamed) {p : String}
    (hp : Path.isValid p = true) : (t.childPaths p).Pairwise (· < ·) := by
  rw [ht.childPaths_eq_filter hp]
  exact (OrderedMap.pairwise_keys _).filter _

theorem mem_childPaths_iff {t : Tree} (ht : t.Sound) {p c : String}
    (hp : Path.isValid p = true) :
    c ∈ t.childPaths p ↔ t.Has c ∧ Path.parent? c = some p :=
  ht.wellNamed.mem_childPaths_iff hp

theorem pairwise_childPaths {t : Tree} (ht : t.Sound) {p : String}
    (hp : Path.isValid p = true) : (t.childPaths p).Pairwise (· < ·) :=
  ht.wellNamed.pairwise_childPaths hp

theorem nodup_childPaths {t : Tree} (ht : t.Sound) {p : String} (hp : Path.isValid p = true) :
    (t.childPaths p).Nodup := OrderedMap.nodup_of_pairwise (pairwise_childPaths ht hp)

/-! ## Ancestors and descendants -/

/-- Whatever a node lies below is a node. -/
theorem NoOrphans.ancestor {t : Tree} (h : t.NoOrphans) (ht : t.WellNamed) {a q : String}
    (ha : Path.isValid a = true) (hq : t.Has q) (haq : Path.Below a q) : t.Has a := by
  refine Path.valid_induction (P := fun q => t.Has q → Path.Below a q → t.Has a)
    (fun _ hbelow => absurd rfl hbelow.1) ?_ (ht q hq) hq haq
  intro p q hq hparent ih hhas hbelow
  have hp := h q p hhas hparent
  rcases (Path.below_iff_of_parent ha hq hparent).1 hbelow with rfl | hap
  · exact hp
  · exact ih hp hap

theorem Sound.ancestor {t : Tree} (ht : t.Sound) {a q : String}
    (ha : Path.isValid a = true) (hq : t.Has q) (h : Path.Below a q) : t.Has a :=
  ht.noOrphans.ancestor ht.wellNamed ha hq h

/-- On the way down to a node there is a child that is a node. -/
theorem NoOrphans.exists_child {t : Tree} (h : t.NoOrphans) (ht : t.WellNamed) {p q : String}
    (hp : Path.isValid p = true) (hq : t.Has q) (hpq : Path.Below p q) :
    ∃ c ∈ t.childPaths p, c = q ∨ Path.Below c q := by
  obtain ⟨c, hc, hparent, hcq⟩ := hpq.exists_child hp (ht q hq)
  refine ⟨c, (ht.mem_childPaths_iff hp).2 ⟨?_, hparent⟩, hcq⟩
  rcases hcq with rfl | hbelow
  · exact hq
  · exact h.ancestor ht hc hq hbelow

theorem Sound.exists_child {t : Tree} (ht : t.Sound) {p q : String}
    (hp : Path.isValid p = true) (hq : t.Has q) (h : Path.Below p q) :
    ∃ c ∈ t.childPaths p, c = q ∨ Path.Below c q :=
  ht.noOrphans.exists_child ht.wellNamed hp hq h

theorem NoOrphans.childless_iff {t : Tree} (h : t.NoOrphans) (ht : t.WellNamed) {p : String}
    (hp : Path.isValid p = true) :
    t.childPaths p = [] ↔ ∀ q, t.Has q → ¬ Path.Below p q := by
  constructor
  · intro hnil q hq hbelow
    obtain ⟨c, hc, _⟩ := h.exists_child ht hp hq hbelow
    rw [hnil] at hc
    cases hc
  · intro hnone
    refine List.eq_nil_iff_forall_not_mem.2 fun c hc => ?_
    obtain ⟨hhas, hparent⟩ := (ht.mem_childPaths_iff hp).1 hc
    exact hnone c hhas (Path.below_of_parent (ht c hhas) hparent)

theorem Sound.childless_iff {t : Tree} (ht : t.Sound) {p : String}
    (hp : Path.isValid p = true) :
    t.childPaths p = [] ↔ ∀ q, t.Has q → ¬ Path.Below p q :=
  ht.noOrphans.childless_iff ht.wellNamed hp

/-- A statement about a path follows from the same statement about its children, for paths
have fewer and fewer paths below them. -/
theorem children_induction {t : Tree} {P : String → Prop}
    (step : ∀ p, (∀ c ∈ t.childPaths p, P c) → P p) (p : String) : P p := by
  generalize hcount : t.countBelow p = count
  induction count using Nat.strongRecOn generalizing p with
  | ind count ih => exact step p fun c hc => ih _ (hcount ▸ countBelow_lt hc) c rfl

/-- A node is without children, or above a node that is. -/
theorem Sound.exists_leaf {t : Tree} (ht : t.Sound) {p : String} (hp : t.Has p) :
    ∃ q, t.Has q ∧ t.childPaths q = [] ∧ (q = p ∨ Path.Below p q) := by
  induction p using t.children_induction with
  | step p ih =>
    cases hchildren : t.childPaths p with
    | nil => exact ⟨p, hp, hchildren, Or.inl rfl⟩
    | cons c rest =>
      have hc : c ∈ t.childPaths p := by rw [hchildren]; exact List.mem_cons_self
      obtain ⟨hhas, hparent⟩ := (mem_childPaths_iff ht (ht.valid hp)).1 hc
      have hpc := Path.below_of_parent (ht.valid hhas) hparent
      obtain ⟨q, hq, hleaf, hcq⟩ := ih c hc hhas
      refine ⟨q, hq, hleaf, Or.inr ?_⟩
      rcases hcq with rfl | hbelow
      · exact hpc
      · exact Path.below_trans hpc hbelow

theorem node?_eq_some_iff {t : Tree} {q : String} {n : Node} :
    t.node? q = some n ↔ ∃ c, t.cells.get? q = some c ∧ t.nodeOf q c = n := by
  rw [node?, Option.map_eq_some_iff]

/-! ## Walks -/

section

variable {t : Tree} {enter : Node → Bool} {p q : String} {n : Node}

theorem has_of_node? (h : t.node? q = some n) : t.Has q := by
  obtain ⟨c, hc, _⟩ := node?_eq_some_iff.1 h
  exact has_iff_get?.2 ⟨c, hc⟩

theorem exists_node? (h : t.Has q) : ∃ n, t.node? q = some n := by
  obtain ⟨c, hc⟩ := has_iff_get?.1 h
  exact ⟨_, node?_eq_some_iff.2 ⟨c, hc, rfl⟩⟩

theorem path_of_node? (h : t.node? q = some n) : n.path = q := by
  obtain ⟨c, _, rfl⟩ := node?_eq_some_iff.1 h
  rfl

/-- What a walk meets at a child and below it. -/
def branch (t : Tree) (enter : Node → Bool) (c : String) : List Node :=
  (t.node? c).elim [] fun n => n :: if enter n then t.nodesBelow enter c else []

theorem branch_of_node? {c : String} (h : t.node? c = some n) :
    t.branch enter c = n :: if enter n then t.nodesBelow enter c else [] := by
  rw [branch, h, Option.elim_some]

theorem nodesBelow_eq_flatMap (t : Tree) (enter : Node → Bool) (p : String) :
    t.nodesBelow enter p = (t.childPaths p).flatMap (t.branch enter) := by
  rw [nodesBelow, List.flatMap_subtype (g := t.branch enter), List.unattach_attach]
  intro c _
  cases hnode : t.node? c <;> simp [branch, hnode]

/-- The walk from `p` enters every node on the way to `q`. -/
def Entered (t : Tree) (enter : Node → Bool) (p q : String) : Prop :=
  ∀ a n, Path.Below p a → Path.Below a q → t.node? a = some n → enter n = true

/-- Nothing is on the way to a child. -/
theorem entered_child (ht : t.Sound) {c : String} (hc : t.Has c)
    (hparent : Path.parent? c = some p) : t.Entered enter p c := by
  intro a m hpa hac hm
  exact absurd hac (Path.not_below_of_parent (ht.valid (has_of_node? hm)) (ht.valid hc)
    hparent hpa)

/-- On the way to what is below a child there is the child and what is on the way from it. -/
theorem entered_iff_of_child (ht : t.Sound) {c : String} (hnode : t.node? c = some n)
    (hparent : Path.parent? c = some p) (hq : t.Has q) (hcq : Path.Below c q) :
    t.Entered enter p q ↔ enter n = true ∧ t.Entered enter c q := by
  have hc := ht.valid (has_of_node? hnode)
  have hpc := Path.below_of_parent hc hparent
  constructor
  · intro h
    exact ⟨h c n hpc hcq hnode, fun a m hca haq => h a m (Path.below_trans hpc hca) haq⟩
  · rintro ⟨hn, h⟩ a m hpa haq hm
    have ha := ht.valid (has_of_node? hm)
    rcases Path.comparable_of_below ha hc (ht.valid hq) haq hcq with rfl | hac | hca
    · rw [hnode] at hm
      cases hm
      exact hn
    · exact absurd hac (Path.not_below_of_parent ha hc hparent hpa)
    · exact h a m hca haq hm

/-- A walk meets exactly the nodes below its start to which it enters every node on the
way. -/
theorem mem_nodesBelow_iff_entered (ht : t.Sound) (hp : Path.isValid p = true) :
    n ∈ t.nodesBelow enter p ↔
      ∃ q, Path.Below p q ∧ t.node? q = some n ∧ t.Entered enter p q := by
  induction p using t.children_induction with
  | step p ih =>
    rw [nodesBelow_eq_flatMap, List.mem_flatMap]
    constructor
    · rintro ⟨c, hc, hn⟩
      obtain ⟨hhas, hparent⟩ := (mem_childPaths_iff ht hp).1 hc
      have hpc := Path.below_of_parent (ht.valid hhas) hparent
      obtain ⟨m, hm⟩ := exists_node? hhas
      rw [branch_of_node? hm, List.mem_cons] at hn
      rcases hn with rfl | hn
      · exact ⟨c, hpc, hm, entered_child ht hhas hparent⟩
      · split at hn
        · rename_i henter
          obtain ⟨q, hcq, hq, hway⟩ := (ih c hc (ht.valid hhas)).1 hn
          exact ⟨q, Path.below_trans hpc hcq, hq,
            (entered_iff_of_child ht hm hparent (has_of_node? hq) hcq).2 ⟨henter, hway⟩⟩
        · cases hn
    · rintro ⟨q, hpq, hq, hway⟩
      obtain ⟨c, hc, hcq⟩ := ht.exists_child hp (has_of_node? hq) hpq
      obtain ⟨hhas, hparent⟩ := (mem_childPaths_iff ht hp).1 hc
      obtain ⟨m, hm⟩ := exists_node? hhas
      refine ⟨c, hc, ?_⟩
      rw [branch_of_node? hm, List.mem_cons]
      rcases hcq with rfl | hcq
      · exact Or.inl (Option.some.inj (hq.symm.trans hm))
      · obtain ⟨henter, hway⟩ :=
          (entered_iff_of_child ht hm hparent (has_of_node? hq) hcq).1 hway
        rw [if_pos henter]
        exact Or.inr ((ih c hc (ht.valid hhas)).2 ⟨q, hcq, hq, hway⟩)

/-- A walk that enters every node meets exactly the nodes below its start. -/
theorem mem_nodesBelow_iff (ht : t.Sound) (hp : Path.isValid p = true) :
    n ∈ t.nodesBelow (fun _ => true) p ↔ ∃ q, Path.Below p q ∧ t.node? q = some n := by
  rw [mem_nodesBelow_iff_entered ht hp]
  constructor
  · rintro ⟨q, hpq, hq, _⟩
    exact ⟨q, hpq, hq⟩
  · rintro ⟨q, hpq, hq⟩
    exact ⟨q, hpq, hq, fun _ _ _ _ _ => rfl⟩

end

/-! ## Leaves -/

theorem isLeaf_iff {t : Tree} {q : String} {n : Node} (h : t.node? q = some n) :
    n.isLeaf = true ↔ t.childPaths q = [] := by
  obtain ⟨c, _, rfl⟩ := node?_eq_some_iff.1 h
  simp [Node.isLeaf, nodeOf]

/-- The nodes without children that a walk meets are those below its start. -/
theorem mem_leavesBelow_iff {t : Tree} (ht : t.Sound) {p : String} (hp : Path.isValid p = true)
    {n : Node} : n ∈ (t.nodesBelow (fun _ => true) p).filter Node.isLeaf ↔
      ∃ q, Path.Below p q ∧ t.childPaths q = [] ∧ t.node? q = some n := by
  rw [List.mem_filter, mem_nodesBelow_iff ht hp]
  constructor
  · rintro ⟨⟨q, hbelow, hn⟩, hleaf⟩
    exact ⟨q, hbelow, (isLeaf_iff hn).1 hleaf, hn⟩
  · rintro ⟨q, hbelow, hnil, hn⟩
    exact ⟨⟨q, hbelow, hn⟩, (isLeaf_iff hn).2 hnil⟩

theorem mem_leafPaths_iff {t : Tree} (ht : t.Sound) {p q : String} (hp : Path.isValid p = true) :
    q ∈ ((t.nodesBelow (fun _ => true) p).filter Node.isLeaf).map Node.path ↔
      t.Has q ∧ Path.Below p q ∧ t.childPaths q = [] := by
  rw [List.mem_map]
  constructor
  · rintro ⟨n, hn, rfl⟩
    obtain ⟨q, hbelow, hnil, hn⟩ := (mem_leavesBelow_iff ht hp).1 hn
    obtain ⟨c, hc, rfl⟩ := node?_eq_some_iff.1 hn
    exact ⟨has_iff_get?.2 ⟨c, hc⟩, hbelow, hnil⟩
  · rintro ⟨hq, hbelow, hnil⟩
    obtain ⟨c, hc⟩ := has_iff_get?.1 hq
    exact ⟨_, (mem_leavesBelow_iff ht hp).2
      ⟨q, hbelow, hnil, node?_eq_some_iff.2 ⟨c, hc, rfl⟩⟩, rfl⟩

/-- A walk that enters no node meets the children. -/
theorem nodesBelow_false (t : Tree) (p : String) :
    t.nodesBelow (fun _ => false) p = (t.childPaths p).filterMap t.node? := by
  rw [nodesBelow_eq_flatMap]
  induction t.childPaths p with
  | nil => rfl
  | cons c l ih =>
    rw [List.flatMap_cons, List.filterMap_cons, ih, branch]
    cases t.node? c <;> rfl

end Tree

end Coordination
