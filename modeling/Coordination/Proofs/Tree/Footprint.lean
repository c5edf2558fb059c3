import Coordination.Proofs.Registry.Steps
import Coordination.Proofs.Tree.Effects

/-!
# The footprint of a store

A value is stored by creating its node or by replacing the value that is there. Nodes above it
are created without values where they are missing, and they count their new children. That is
all: every other node stays as it is, whatever was in the tree before. Footprints of stores one
below the other make up the footprint of both.
-/

namespace Coordination.Tree

/-- All that happens to `q` is what a new node at `p` takes: it stays as it is, or it is above
`p`, is created without a value if it was missing, and counts new children. -/
def OnlyGrows (t t' : Tree) (p q : String) : Prop :=
  t'.cells.get? q = t.cells.get? q ∨ Path.Below q p ∧
    ∃ n, t'.cells.get? q = some (Cell.grow n ((t.cells.get? q).getD ⟨[], 0, 0⟩))

namespace OnlyGrows

variable {t t' t'' : Tree} {p p' q : String}

theorem mono (h : t.OnlyGrows t' p q) (hp : Path.Below p p') : t.OnlyGrows t' p' q :=
  h.imp id fun hgrown => ⟨Path.below_trans hgrown.1 hp, hgrown.2⟩

theorem trans (h : t.OnlyGrows t' p q) (h' : t'.OnlyGrows t'' p q) : t.OnlyGrows t'' p q := by
  rcases h with hsame | ⟨hbelow, n, hgrown⟩
  · rwa [OnlyGrows, hsame] at h'
  · refine Or.inr ⟨hbelow, ?_⟩
    rcases h' with hsame | ⟨-, m, hmore⟩
    · exact ⟨n, hsame.trans hgrown⟩
    · refine ⟨n + m, hmore.trans ?_⟩
      rw [hgrown, Option.getD_some, Cell.grow, Cell.grow, Cell.grow, Nat.add_assoc]

/-- A node that was there keeps its value. -/
theorem value (h : t.OnlyGrows t' p q) (hq : t.Has q) : t'.value? q = t.value? q := by
  rcases h with hsame | ⟨-, n, hgrown⟩
  · rw [value?, hsame, value?]
  · obtain ⟨c, hc⟩ := has_iff_get?.1 hq
    rw [value?, hgrown, value?, hc]
    rfl

end OnlyGrows

/-- The value is at the path, and the rest of the tree only grew for it. -/
structure Stores (t : Tree) (p : String) (v : Bytes) (t' : Tree) : Prop where
  sound : t'.Sound
  value : t'.value? p = some v
  others : ∀ q, q ≠ p → t.OnlyGrows t' p q

variable {t : Tree} {p : String}

/-- Where the parent is missing, it is created first. -/
theorem created_of_not_has {parent : String} (hparent : Path.parent? p = some parent)
    (h : ¬ t.Has parent) (v : Bytes) :
    t.created p v = ((t.created parent []).plant p v).1 := by
  rw [created, missingAncestors_of_not_has hparent h]
  rfl

theorem created_of_has {parent : String} (hparent : Path.parent? p = some parent)
    (h : t.Has parent) (v : Bytes) : t.created p v = (t.plant p v).1 := by
  rw [created, missingAncestors_of_has hparent h]
  rfl

theorem get?_created_self (t : Tree) (p : String) (v : Bytes) :
    (t.created p v).cells.get? p = some ⟨v, 0, 0⟩ := by
  rw [created]
  cases hparent : Path.parent? p with
  | none =>
    rw [plant, hparent]
    exact OrderedMap.get?_insert_self _ _ _
  | some parent => rw [get?_plant hparent, if_pos rfl]

theorem onlyGrows_created (ht : t.Sound) (hp : Path.isValid p = true) (hmissing : ¬ t.Has p)
    (v : Bytes) {q : String} (hq : q ≠ p) : t.OnlyGrows (t.created p v) p q := by
  -- from the root down, as the ancestors of a path are its parent and the ancestors of that
  refine Path.valid_induction (P := fun p => ¬ t.Has p → q ≠ p → ∀ v,
    t.OnlyGrows (t.created p v) p q) ?_ ?_ hp hmissing hq v
  · intro hroot
    exact absurd ht.root hroot
  · intro parent p hp hparent ih hmissing hq v
    have hbelow := Path.below_of_parent hp hparent
    by_cases hhas : t.Has parent
    · rw [created_of_has hparent hhas, OnlyGrows, get?_plant hparent, if_neg hq]
      by_cases hqp : q = parent
      · obtain ⟨c, hc⟩ := has_iff_get?.1 hhas
        rw [if_pos hqp, hqp, hc]
        exact Or.inr ⟨hbelow, 1, rfl⟩
      · rw [if_neg hqp]
        exact Or.inl rfl
    · rw [created_of_not_has hparent hhas, OnlyGrows, get?_plant hparent, if_neg hq]
      by_cases hqp : q = parent
      · rw [if_pos hqp, hqp, get?_created_self, not_has_iff.1 hhas]
        exact Or.inr ⟨hbelow, 1, rfl⟩
      · rw [if_neg hqp]
        exact (ih hhas hqp []).mono hbelow

theorem stores_created (ht : t.Sound) (hp : Path.isValid p = true) (hmissing : ¬ t.Has p)
    (v : Bytes) : t.Stores p v (t.created p v) where
  sound := sound_created ht hp v
  value := by rw [value?_created ht hp, if_pos rfl]
  others _ hq := onlyGrows_created ht hp hmissing v hq

theorem stores_written (ht : t.Sound) {c : Cell} (hc : t.cells.get? p = some c) (v : Bytes) :
    t.Stores p v (t.written p c v) where
  sound := sound_written ht hc v
  value := by rw [value?_written, if_pos rfl]
  others q hq := Or.inl (by rw [get?_written, if_neg hq])

/-- A value can be stored at every valid path where no writes are refused. -/
theorem run_put (ht : t.Sound) (hlocked : t.locked = none) (hp : Path.isValid p = true)
    (v : Bytes) : ∃ t', t.run (Action.put p v).run = (.ok (), t') ∧ t'.locked = none ∧
      t.Stores p v t' := by
  cases hcell : t.cells.get? p with
  | some c => exact ⟨_, run_put_of_get? hlocked hp hcell v, hlocked, stores_written ht hcell v⟩
  | none =>
    have hmissing := not_has_iff.2 hcell
    exact ⟨_, run_put_of_not_has hlocked hp hmissing v, (locked_created t p v).trans hlocked,
      stores_created ht hp hmissing v⟩

end Coordination.Tree
