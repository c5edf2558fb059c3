import Coordination.Proofs.Text.Utf8
import Coordination.Proofs.Tree.Children

/-!
# What the scan for children finds

The scan for the children of a path reads the neighbours of its first possible child in the order
of paths, which is the order of their bytes. It takes validity of the paths only: whether the path
itself, the root or any parent is in the tree does not matter to it. What it leaves out are the
path and its siblings, although a sibling such as `/a-b` stands before the children of `/a` and
starts as they do up to the slash, and everything deeper. Where no parent is missing, a path
without children has nothing below it.
-/

namespace Coordination.Tree

variable {t : Tree} {p c k : String}

/-- A path and its siblings have another parent than its children. -/
theorem WellNamed.not_mem_childPaths_of_sibling (ht : t.WellNamed) (hp : Path.isValid p = true)
    (h : Path.parent? k = Path.parent? p) : k ∉ t.childPaths p := by
  intro hk
  obtain ⟨-, hparent⟩ := (ht.mem_childPaths_iff hp).1 hk
  exact Nat.lt_irrefl _ (Path.length_parent_lt (h.symm.trans hparent))

/-- Nothing that lies below a child is a child. -/
theorem WellNamed.not_mem_childPaths_of_deeper (ht : t.WellNamed) (hp : Path.isValid p = true)
    (hc : Path.parent? c = some p) (h : c ∈ Path.ancestors k) : k ∉ t.childPaths p := by
  intro hk
  obtain ⟨hhas, hparent⟩ := (ht.mem_childPaths_iff hp).1 hk
  have hvalid := ht k hhas
  obtain ⟨hcvalid, hck⟩ := (Path.mem_ancestors_iff hvalid).1 h
  have hpc := Path.below_of_parent hcvalid hc
  exact Path.not_below_of_parent hcvalid hvalid hparent hpc hck

theorem NoOrphans.childPaths_eq_nil_iff (h : t.NoOrphans) (ht : t.WellNamed)
    (hp : Path.isValid p = true) :
    t.childPaths p = [] ↔ ∀ q, t.Has q → p ∉ Path.ancestors q := by
  rw [h.childless_iff ht hp]
  refine forall₂_congr fun q hq => ?_
  rw [Path.mem_ancestors_iff (ht q hq), and_iff_right hp]

/-- Where all paths are valid, the scan for the children of a path lists exactly the nodes with
this parent, each once and in the order of bytes. Neither the path itself nor a sibling of it nor
what lies below a child is among them. Where besides no parent is missing, an empty list tells
that nothing lies below the path. -/
theorem scan_finds_children (ht : t.WellNamed) (hp : Path.isValid p = true) :
    t.childPaths p = (t.cells.keys.filter fun k => Path.parent? k = some p) ∧
      (∀ k, k ∈ t.childPaths p ↔ t.Has k ∧ Path.parent? k = some p) ∧
      (t.childPaths p).Nodup ∧
      (t.childPaths p).Pairwise (fun a b => Text.Utf8.encode a < Text.Utf8.encode b) ∧
      (∀ k, Path.parent? k = Path.parent? p → k ∉ t.childPaths p) ∧
      (∀ c k, Path.parent? c = some p → c ∈ Path.ancestors k → k ∉ t.childPaths p) ∧
      (t.NoOrphans → (t.childPaths p = [] ↔ ∀ q, t.Has q → p ∉ Path.ancestors q)) := by
  have horder := ht.pairwise_childPaths hp
  exact ⟨ht.childPaths_eq_filter hp, fun _ => ht.mem_childPaths_iff hp,
    OrderedMap.nodup_of_pairwise horder, horder.imp Text.Utf8.encode_lt_encode,
    fun _ h => ht.not_mem_childPaths_of_sibling hp h,
    fun _ _ hc h => ht.not_mem_childPaths_of_deeper hp hc h,
    fun h => h.childPaths_eq_nil_iff ht hp⟩

namespace CommonStarts

/-- Two siblings of `/a` that start with it, one of which comes before its children. -/
def tree : Tree :=
  ⟨.ofList (["/", "/a", "/a-b", "/a/x", "/a/x/y", "/a/z", "/ab"].map (·, ⟨[], 0, 0⟩)), none⟩

/-- The children of `/a` are found between its siblings, and `/ab` has nothing below it. -/
theorem scan_between_siblings :
    (tree.WellNamed ∧ tree.NoOrphans ∧ Path.isValid "/a" = true ∧ Path.isValid "/ab" = true) ∧
      tree.childPaths "/a" = ["/a/x", "/a/z"] ∧
      "/ab" ∉ tree.childPaths "/a" ∧ "/a/x/y" ∉ tree.childPaths "/a" ∧
      ∀ q, tree.Has q → "/ab" ∉ Path.ancestors q := by
  have hnames : tree.WellNamed := by decide +kernel
  have hparents : tree.NoOrphans := by decide +kernel
  obtain ⟨hlist, -, -, -, hsibling, hdeeper, -⟩ := scan_finds_children hnames (p := "/a") rfl
  obtain ⟨hlist', -, -, -, -, -, hnone⟩ := scan_finds_children hnames (p := "/ab") rfl
  have habove : "/a/x" ∈ Path.ancestors "/a/x/y" :=
    (Path.mem_ancestors_iff rfl).2 ⟨rfl, by decide⟩
  refine ⟨⟨hnames, hparents, rfl, rfl⟩, ?_, hsibling _ rfl, hdeeper "/a/x" _ rfl habove, ?_⟩
  · rw [hlist]
    decide +kernel
  · refine (hnone hparents).1 ?_
    rw [hlist']
    decide +kernel

/-- A node without its parent is not found from above. -/
example : (Tree.mk (.ofList [("/a/x/y", ⟨[], 0, 0⟩)]) none).childPaths "/a" = [] := by
  decide +kernel

end CommonStarts

end Coordination.Tree
