/-!
# Finite maps in name order

A finite map from names to values, kept as a list that is strictly ascending by name. Names
compare by code points, which is also the order of their UTF-8 bytes. The order is part of
the type, so no operation can lose it; look-up, insertion and removal are described by
`get?`.
-/

namespace Coordination

universe u v

/-- Pairs whose names ascend strictly. -/
def Ascending {α : Type u} (l : List (String × α)) : Prop :=
  l.Pairwise fun a b => a.1 < b.1

/-- A finite map from names to values, listed in ascending order of the names. -/
structure OrderedMap (α : Type u) where
  toList : List (String × α)
  ascending : Ascending toList

namespace OrderedMap

variable {α : Type u} {β : Type v}

@[ext] theorem ext {m n : OrderedMap α} (h : m.toList = n.toList) : m = n := by
  cases m; cases n; cases h; rfl

instance [DecidableEq α] : DecidableEq (OrderedMap α) := fun m n =>
  decidable_of_iff (m.toList = n.toList) ⟨ext, fun h => h ▸ rfl⟩

/-- The map without names. -/
def empty : OrderedMap α := ⟨[], .nil⟩

instance : Inhabited (OrderedMap α) := ⟨empty⟩

/-- Put a pair into an ascending list, in place of one with the same name. -/
def insertPair (k : String) (v : α) : List (String × α) → List (String × α)
  | [] => [(k, v)]
  | (k', v') :: rest =>
    if k < k' then (k, v) :: (k', v') :: rest
    else if k = k' then (k, v) :: rest
    else (k', v') :: insertPair k v rest

theorem mem_insertPair {k : String} {v : α} {l : List (String × α)} {p : String × α}
    (h : p ∈ insertPair k v l) : p = (k, v) ∨ p ∈ l := by
  induction l with
  | nil => simpa [insertPair] using h
  | cons q rest ih =>
    obtain ⟨k', v'⟩ := q
    rw [insertPair] at h
    split at h
    · simpa using h
    · split at h
      · rcases List.mem_cons.1 h with h | h
        · exact Or.inl h
        · exact Or.inr (List.mem_cons_of_mem _ h)
      · rcases List.mem_cons.1 h with h | h
        · exact Or.inr (h ▸ List.mem_cons_self)
        · rcases ih h with h | h
          · exact Or.inl h
          · exact Or.inr (List.mem_cons_of_mem _ h)

theorem ascending_insertPair {k : String} {v : α} {l : List (String × α)}
    (h : Ascending l) : Ascending (insertPair k v l) := by
  induction l with
  | nil => exact List.pairwise_singleton _ _
  | cons q rest ih =>
    obtain ⟨k', v'⟩ := q
    obtain ⟨hq, hrest⟩ := List.pairwise_cons.1 h
    rw [insertPair]
    split
    · rename_i hlt
      refine List.pairwise_cons.2 ⟨fun p hp => ?_, h⟩
      rcases List.mem_cons.1 hp with rfl | hp
      · exact hlt
      · exact String.lt_trans hlt (hq p hp)
    · rename_i hge
      split
      · rename_i heq
        exact List.pairwise_cons.2 ⟨fun p hp => heq ▸ hq p hp, hrest⟩
      · rename_i hne
        have hlt : k' < k := by
          rcases Std.Trichotomous.rel_or_eq_or_rel_swap (r := fun a b : String => a < b)
            (a := k) (b := k') with h | h | h
          · exact absurd h hge
          · exact absurd h hne
          · exact h
        refine List.pairwise_cons.2 ⟨fun p hp => ?_, ih hrest⟩
        rcases mem_insertPair hp with rfl | hp
        · exact hlt
        · exact hq p hp

/-- Bind `k` to `v`, in place of an earlier value. -/
def insert (m : OrderedMap α) (k : String) (v : α) : OrderedMap α :=
  ⟨insertPair k v m.toList, ascending_insertPair m.ascending⟩

/-- The value of `k`. -/
def get? (m : OrderedMap α) (k : String) : Option α := m.toList.lookup k

/-- Whether `k` has a value. -/
def contains (m : OrderedMap α) (k : String) : Bool := (m.get? k).isSome

/-- Forget `k`. -/
def erase (m : OrderedMap α) (k : String) : OrderedMap α :=
  ⟨m.toList.filter (·.1 ≠ k), List.Pairwise.filter _ m.ascending⟩

/-- Change every value, with its name at hand. -/
def mapWithName (f : String → α → β) (m : OrderedMap α) : OrderedMap β :=
  ⟨m.toList.map fun p => (p.1, f p.1 p.2), by
    unfold Ascending
    exact List.pairwise_map.2 m.ascending⟩

/-- Change the value of `k`, if it has one. -/
def modify (m : OrderedMap α) (k : String) (f : α → α) : OrderedMap α :=
  m.mapWithName fun name v => if name = k then f v else v

/-- The names, ascending. -/
def keys (m : OrderedMap α) : List String := m.toList.map (·.1)

/-- The values, in the order of their names. -/
def values (m : OrderedMap α) : List α := m.toList.map (·.2)

/-- The number of names. -/
def size (m : OrderedMap α) : Nat := m.toList.length

/-- Whether there is no name. -/
def isEmpty (m : OrderedMap α) : Bool := m.toList.isEmpty

/-- The map of a list of pairs; of two pairs with one name the later counts. -/
def ofList (l : List (String × α)) : OrderedMap α :=
  l.foldl (fun m p => m.insert p.1 p.2) empty

/-- The pairs whose names are `k` or later. -/
def startingAt (m : OrderedMap α) (k : String) : List (String × α) :=
  m.toList.dropWhile (·.1 < k)

end OrderedMap

end Coordination
