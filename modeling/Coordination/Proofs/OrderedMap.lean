import Coordination.OrderedMap.Lookup

/-!
# Names of maps, and maps over maps

The names of a map ascend. One map over another, and a map without some names, are described
by look-up as they come about name by name.
-/

namespace Coordination.OrderedMap

universe u

variable {α : Type u}

theorem pairwise_keys (m : OrderedMap α) : m.keys.Pairwise (· < ·) :=
  List.pairwise_map.2 m.ascending

theorem nodup_of_pairwise {l : List String} (h : l.Pairwise (· < ·)) : l.Nodup := by
  refine List.Pairwise.imp ?_ h
  intro a b hlt heq
  exact String.lt_irrefl b (heq ▸ hlt)

theorem nodup_keys (m : OrderedMap α) : m.keys.Nodup := nodup_of_pairwise m.pairwise_keys

theorem contains_iff_mem_keys {m : OrderedMap α} {k : String} :
    m.contains k = true ↔ k ∈ m.keys := mem_keys.symm

theorem map_fst_startingAt (m : OrderedMap α) (k : String) :
    (m.startingAt k).map (·.1) = m.keys.dropWhile (· < k) := by
  rw [startingAt, keys]
  induction m.toList with
  | nil => rfl
  | cons p l ih =>
    by_cases hlt : p.1 < k
    · rw [List.map_cons, List.dropWhile_cons_of_pos (by simpa using hlt),
        List.dropWhile_cons_of_pos (by simpa using hlt), ih]
    · rw [List.map_cons, List.dropWhile_cons_of_neg (by simpa using hlt),
        List.dropWhile_cons_of_neg (by simpa using hlt), List.map_cons]

theorem contains_eq_false_iff {m : OrderedMap α} {k : String} :
    m.contains k = false ↔ m.get? k = none := by
  rw [contains, Option.isSome_eq_false_iff, Option.isNone_iff_eq_none]

theorem contains_insert {m : OrderedMap α} {k k' : String} {v : α} :
    (m.insert k v).contains k' = true ↔ k' = k ∨ m.contains k' = true := by
  rw [contains, get?_insert]
  by_cases h : k' = k
  · rw [if_pos h]
    exact iff_of_true rfl (Or.inl h)
  · rw [if_neg h]
    exact (or_iff_right h).symm

theorem contains_erase {m : OrderedMap α} {k k' : String} :
    (m.erase k).contains k' = true ↔ k' ≠ k ∧ m.contains k' = true := by
  rw [contains, get?_erase]
  by_cases h : k' = k
  · rw [if_pos h]
    exact iff_of_false Bool.false_ne_true fun hnot => hnot.1 h
  · rw [if_neg h]
    exact (and_iff_right h).symm

/-- The map with pairs inserted one after another. -/
def insertAll (m : OrderedMap α) (l : List (String × α)) : OrderedMap α :=
  l.foldl (fun m p => m.insert p.1 p.2) m

/-- The map with the values of another in place of its own. -/
def override (m changes : OrderedMap α) : OrderedMap α := m.insertAll changes.toList

/-- The map without some names. -/
def without (m : OrderedMap α) (names : List String) : OrderedMap α := names.foldl erase m

theorem get?_insertAll_of_not_mem {m : OrderedMap α} {l : List (String × α)} {k : String}
    (h : k ∉ l.map (·.1)) : (m.insertAll l).get? k = m.get? k := by
  induction l generalizing m with
  | nil => rfl
  | cons p rest ih =>
    rw [List.map_cons, List.mem_cons, not_or] at h
    show ((m.insert p.1 p.2).insertAll rest).get? k = _
    rw [ih h.2, get?_insert, if_neg h.1]

theorem get?_insertAll_of_mem {m : OrderedMap α} {l : List (String × α)}
    (hl : (l.map (·.1)).Nodup) {k : String} {v : α} (h : (k, v) ∈ l) :
    (m.insertAll l).get? k = some v := by
  induction l generalizing m with
  | nil => cases h
  | cons p rest ih =>
    rw [List.map_cons, List.nodup_cons] at hl
    show ((m.insert p.1 p.2).insertAll rest).get? k = _
    rcases List.mem_cons.1 h with rfl | h
    · rw [get?_insertAll_of_not_mem hl.1, get?_insert_self]
    · exact ih hl.2 h

theorem get?_override (m changes : OrderedMap α) (k : String) :
    (m.override changes).get? k = (changes.get? k).or (m.get? k) := by
  cases h : changes.get? k with
  | some v => exact get?_insertAll_of_mem changes.nodup_keys (get?_eq_some_iff.1 h)
  | none =>
    refine get?_insertAll_of_not_mem fun hmem => ?_
    have hkey : (changes.get? k).isSome := mem_keys.1 hmem
    rw [h] at hkey
    cases hkey

theorem get?_without (m : OrderedMap α) (names : List String) (k : String) :
    (m.without names).get? k = if k ∈ names then none else m.get? k := by
  induction names generalizing m with
  | nil => rfl
  | cons name rest ih =>
    show ((m.erase name).without rest).get? k = _
    rw [ih, get?_erase]
    by_cases hname : k = name <;> by_cases hrest : k ∈ rest <;> simp [hname, hrest]

theorem contains_insertAll {m : OrderedMap α} (l : List (String × α)) {k : String}
    (h : m.contains k = true) : (m.insertAll l).contains k = true := by
  induction l generalizing m with
  | nil => exact h
  | cons p rest ih => exact ih (contains_insert.2 (Or.inr h))

/-- To override a map it takes to insert some of the pairs and then the others. -/
theorem insertAll_filter (m changes : OrderedMap α) (p : String → Bool) :
    (m.insertAll (changes.toList.filter fun o => !p o.1)).insertAll
      (changes.toList.filter fun o => p o.1) = m.override changes := by
  have hnodup (q : String × α → Bool) : ((changes.toList.filter q).map (·.1)).Nodup :=
    (List.filter_sublist.map _).nodup changes.nodup_keys
  refine ext_get? fun k => ?_
  rw [get?_override]
  cases hk : changes.get? k with
  | none =>
    have hnot (q : String × α → Bool) : k ∉ (changes.toList.filter q).map (·.1) := by
      intro hmem
      have hkey : (changes.get? k).isSome :=
        mem_keys.1 ((List.filter_sublist.map _).subset hmem)
      rw [hk] at hkey
      cases hkey
    rw [get?_insertAll_of_not_mem (hnot _), get?_insertAll_of_not_mem (hnot _)]
    rfl
  | some v =>
    have hmem := get?_eq_some_iff.1 hk
    cases hp : p k with
    | true => exact get?_insertAll_of_mem (hnodup _) (List.mem_filter.2 ⟨hmem, hp⟩)
    | false =>
      rw [get?_insertAll_of_not_mem]
      · refine get?_insertAll_of_mem (hnodup _) (List.mem_filter.2 ⟨hmem, ?_⟩)
        rw [hp]
        rfl
      · intro hpos
        obtain ⟨o, ho, rfl⟩ := List.mem_map.1 hpos
        rw [(List.mem_filter.1 ho).2] at hp
        cases hp

/-- Leaving out names that a map lacks changes nothing. -/
theorem without_filter {m : OrderedMap α} {names : List String} {p : String → Bool}
    (h : ∀ name ∈ names, p name = false → m.get? name = none) :
    m.without (names.filter p) = m.without names := by
  refine ext_get? fun k => ?_
  rw [get?_without, get?_without]
  by_cases hk : k ∈ names
  · cases hp : p k with
    | true => rw [if_pos (List.mem_filter.2 ⟨hk, hp⟩), if_pos hk]
    | false => rw [h k hk hp, ite_self, ite_self]
  · rw [if_neg hk, if_neg fun hmem => hk (List.mem_filter.1 hmem).1]

/-- To take names out of a map that was overridden elsewhere it is enough to take out those
that it had before. -/
theorem without_filter_override {m changes : OrderedMap α} {names : List String}
    (h : ∀ name ∈ changes.keys, name ∉ names) :
    (m.override changes).without (names.filter fun name => m.contains name) =
      (m.override changes).without names := by
  refine without_filter fun name hname hmissing => ?_
  have hnot : changes.get? name = none := by
    rw [← contains_eq_false_iff, Bool.eq_false_iff]
    exact fun hcontains => h name (contains_iff_mem_keys.1 hcontains) hname
  rw [get?_override, hnot, contains_eq_false_iff.1 hmissing]
  rfl

theorem length_filter_keys (m : OrderedMap α) (p : String → Bool) :
    (m.keys.filter p).length = (m.toList.filter fun o => p o.1).length := by
  rw [keys, List.filter_map, List.length_map]
  rfl

theorem empty_override (m : OrderedMap α) : empty.override m = m := by
  refine ext_get? fun k => ?_
  rw [get?_override, get?_empty, Option.or_none]

end Coordination.OrderedMap
