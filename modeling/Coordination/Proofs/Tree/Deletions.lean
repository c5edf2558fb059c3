import Coordination.Proofs.Registry.Outcome
import Coordination.Proofs.Tree.Confinement

/-!
# Deletions one after another

Nodes that are deleted one after another are exactly those that are gone in the end. Whatever
is below one of them is one of them, too, since a node is deleted only when it has no children
left. Every node that stays keeps its cell and counts the children that it lost. So it is
enough to know which nodes are deleted: the order in which this happens makes no difference.
-/

namespace Coordination.Tree

variable {t t' : Tree} {gs : List String} {g q : String}

/-- To delete a node and then others is to remove it, which has no children, and to go on. -/
theorem Makes.of_delete_cons (h : Makes t ((g :: gs).map .delete) t') :
    ∃ parent, Path.parent? g = some parent ∧ t.Has g ∧ t.childPaths g = [] ∧
      Makes (t.removed g parent) (gs.map .delete) t' := by
  cases h with
  | cons head tail =>
    obtain ⟨parent, hparent, hhas, hleaf, rfl⟩ := removed_of_respond head
    exact ⟨parent, hparent, hhas, hleaf, tail⟩

theorem Makes.delete_cons {parent : String} (hu : t.locked = none) (hg : Path.isValid g = true)
    (hhas : t.Has g) (hparent : Path.parent? g = some parent) (hleaf : t.childPaths g = [])
    (h : Makes (t.removed g parent) (gs.map .delete) t') :
    Makes t ((g :: gs).map .delete) t' :=
  .cons (respond_delete_of_leaf hu hg hhas hparent hleaf) h

theorem Makes.append_deletes {t'' : Tree} {gs' : List String}
    (h : Makes t (gs.map .delete) t') (h' : Makes t' (gs'.map .delete) t'') :
    Makes t ((gs ++ gs').map .delete) t'' := by
  rw [List.map_append]
  exact h.append h'

/-- What is left are the nodes that are not deleted. -/
theorem Makes.has_deletes (h : Makes t (gs.map .delete) t') : t'.Has q ↔ t.Has q ∧ q ∉ gs := by
  induction gs generalizing t with
  | nil =>
    rw [h.eq_of_nil]
    exact (and_iff_left List.not_mem_nil).symm
  | cons g gs ih =>
    obtain ⟨parent, _, _, _, htail⟩ := h.of_delete_cons
    rw [ih htail, has_removed, List.mem_cons, not_or]
    exact ⟨fun hq => ⟨hq.1.2, hq.1.1, hq.2⟩, fun hq => ⟨⟨hq.2.1, hq.1⟩, hq.2.2⟩⟩

/-- What is deleted was there, and is deleted once. -/
theorem Makes.nodup_deletes (h : Makes t (gs.map .delete) t') :
    gs.Nodup ∧ ∀ g ∈ gs, t.Has g := by
  induction gs generalizing t with
  | nil => exact ⟨.nil, List.forall_mem_nil _⟩
  | cons g gs ih =>
    obtain ⟨parent, _, hhas, _, htail⟩ := h.of_delete_cons
    obtain ⟨hnodup, hthere⟩ := ih htail
    refine ⟨List.nodup_cons.2 ⟨fun hg => ?_, hnodup⟩, List.forall_mem_cons.2 ⟨hhas, ?_⟩⟩
    · exact (has_removed.1 (hthere g hg)).1 rfl
    · exact fun g' hg' => (has_removed.1 (hthere g' hg')).2

theorem Makes.mem_deletes_iff (h : Makes t (gs.map .delete) t') :
    g ∈ gs ↔ t.Has g ∧ ¬ t'.Has g := by
  rw [h.has_deletes, not_and, not_not]
  exact ⟨fun hg => ⟨h.nodup_deletes.2 g hg, fun _ => hg⟩, fun hg => hg.2 hg.1⟩

/-- What is below a deleted node is deleted, too. -/
theorem Makes.mem_deletes_of_below (h : Makes t (gs.map .delete) t') (ht : t.Sound)
    (hg : g ∈ gs) (hq : t.Has q) (hbelow : Path.Below g q) : q ∈ gs := by
  obtain ⟨hhas, hgone⟩ := h.mem_deletes_iff.1 hg
  by_contra hq'
  exact hgone ((h.sound ht).1.ancestor (ht.valid hhas) (h.has_deletes.2 ⟨hq, hq'⟩) hbelow)

/-- Every node that stays counts the children that it lost. -/
theorem Makes.get?_deletes (h : Makes t (gs.map .delete) t') (q : String) :
    t'.cells.get? q = if q ∈ gs then none else
      (t.cells.get? q).map (Cell.grow (gs.countP fun g => Path.parent? g = some q)) := by
  induction gs generalizing t with
  | nil =>
    rw [h.eq_of_nil, if_neg List.not_mem_nil, List.countP_nil, Cell.map_grow_zero]
  | cons g gs ih =>
    obtain ⟨parent, hparent, _, _, htail⟩ := h.of_delete_cons
    rw [ih htail, get?_removed, List.countP_cons]
    by_cases hq : q = g
    · simp [hq]
    · by_cases hqp : q = parent
      · subst hqp
        rw [if_neg hq, if_pos rfl, hparent, Cell.map_grow_grow, Nat.add_comm 1]
        simp [hq]
      · have hne : Path.parent? g ≠ some q := by
          rw [hparent]
          exact fun h => hqp (Option.some.inj h).symm
        simp [hq, hqp, hne]

theorem Makes.value?_deletes (h : Makes t (gs.map .delete) t') (hq : q ∉ gs) :
    t'.value? q = t.value? q := by
  rw [value?, h.get?_deletes, if_neg hq, Option.map_map]
  rfl

theorem Makes.length_deletes (h : Makes t (gs.map .delete) t') :
    gs.length = (t.cells.keys.filter fun q => ¬ t'.Has q).length := by
  refine List.Perm.length_eq ?_
  rw [List.perm_ext_iff_of_nodup h.nodup_deletes.1 (t.cells.nodup_keys.filter _)]
  intro g
  rw [h.mem_deletes_iff, List.mem_filter, has_iff_mem_keys, decide_eq_true_eq]

theorem Makes.countP_deletes (h : Makes t (gs.map .delete) t') (ht : t.Sound)
    (hq : Path.isValid q = true) : (gs.countP fun g => Path.parent? g = some q) =
      (t.childPaths q).countP fun c => ¬ t'.Has c := by
  rw [List.countP_eq_length_filter, List.countP_eq_length_filter]
  refine List.Perm.length_eq ?_
  rw [List.perm_ext_iff_of_nodup (h.nodup_deletes.1.filter _) ((nodup_childPaths ht hq).filter _)]
  intro c
  rw [List.mem_filter, List.mem_filter, h.mem_deletes_iff, mem_childPaths_iff ht hq,
    decide_eq_true_eq, decide_eq_true_eq]
  exact and_right_comm

/-- Deletions of the same nodes lead to the same tree. -/
theorem Makes.eq_of_deletes {gs' : List String} {t'' : Tree} (ht : t.Sound)
    (h : Makes t (gs.map .delete) t') (h' : Makes t (gs'.map .delete) t'')
    (hsame : ∀ g, g ∈ gs ↔ g ∈ gs') : t'' = t' := by
  have hperm : gs'.Perm gs := by
    rw [List.perm_ext_iff_of_nodup h'.nodup_deletes.1 h.nodup_deletes.1]
    exact fun g => (hsame g).symm
  have hcells : t''.cells = t'.cells := by
    refine OrderedMap.ext_get? fun q => ?_
    rw [h.get?_deletes, h'.get?_deletes, hperm.countP_eq]
    simp only [hsame]
  have hlocked : t''.locked = t'.locked := (h'.sound ht).2.trans (h.sound ht).2.symm
  cases t'
  cases t''
  simp only at hcells hlocked
  rw [hcells, hlocked]

end Coordination.Tree
