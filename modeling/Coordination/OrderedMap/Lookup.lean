import Coordination.OrderedMap

/-!
# Look-up in ordered maps

What each operation does to `get?`, and that look-up and listing tell the same: a name has
a value exactly if the pair is listed, and two maps with the same look-ups are equal.
-/

namespace Coordination.OrderedMap

universe u v

variable {α : Type u} {β : Type v}

theorem lookup_cons_eq (name k : String) (v : α) (rest : List (String × α)) :
    ((k, v) :: rest).lookup name = if name = k then some v else rest.lookup name := by
  rw [List.lookup_cons]
  by_cases h : name = k
  · simp [h]
  · rw [if_neg h, beq_eq_false_iff_ne.2 h]

theorem lookup_insertPair (k : String) (v : α) (l : List (String × α)) (name : String) :
    (insertPair k v l).lookup name = if name = k then some v else l.lookup name := by
  induction l with
  | nil => rw [insertPair, lookup_cons_eq]
  | cons p rest ih =>
    obtain ⟨k', v'⟩ := p
    rw [insertPair]
    split
    · rw [lookup_cons_eq]
    · split
      · rename_i heq
        rw [lookup_cons_eq, lookup_cons_eq]
        by_cases h : name = k <;> simp [h, ← heq]
      · rename_i hne
        rw [lookup_cons_eq, lookup_cons_eq, ih]
        by_cases h : name = k'
        · simp [h, Ne.symm hne]
        · simp [h]

@[simp] theorem get?_empty (name : String) : (empty : OrderedMap α).get? name = none := rfl

theorem get?_insert (m : OrderedMap α) (k : String) (v : α) (name : String) :
    (m.insert k v).get? name = if name = k then some v else m.get? name :=
  lookup_insertPair k v m.toList name

@[simp] theorem get?_insert_self (m : OrderedMap α) (k : String) (v : α) :
    (m.insert k v).get? k = some v := by simp [get?_insert]

theorem get?_erase (m : OrderedMap α) (k name : String) :
    (m.erase k).get? name = if name = k then none else m.get? name := by
  show List.lookup name (m.toList.filter (·.1 ≠ k)) = _
  rw [get?]
  induction m.toList with
  | nil => simp
  | cons p rest ih =>
    obtain ⟨k', v'⟩ := p
    by_cases hk : k' = k
    · rw [List.filter_cons_of_neg (by simp [hk]), ih, lookup_cons_eq]
      by_cases h : name = k <;> simp [h, hk]
    · rw [List.filter_cons_of_pos (by simp [hk]), lookup_cons_eq, lookup_cons_eq, ih]
      by_cases h : name = k'
      · simp [h, hk]
      · simp [h]

theorem get?_mapWithName (f : String → α → β) (m : OrderedMap α) (name : String) :
    (m.mapWithName f).get? name = (m.get? name).map (f name) := by
  show List.lookup name (m.toList.map fun p => (p.1, f p.1 p.2)) = _
  rw [get?]
  induction m.toList with
  | nil => rfl
  | cons p rest ih =>
    obtain ⟨k', v'⟩ := p
    rw [List.map_cons, lookup_cons_eq, lookup_cons_eq, ih]
    by_cases h : name = k' <;> simp [h]

theorem get?_modify (m : OrderedMap α) (k : String) (f : α → α) (name : String) :
    (m.modify k f).get? name = if name = k then (m.get? name).map f else m.get? name := by
  rw [modify, get?_mapWithName]
  by_cases h : name = k <;> simp [h]

/-- A name has a value exactly if the pair is listed. -/
theorem get?_eq_some_iff {m : OrderedMap α} {k : String} {v : α} :
    m.get? k = some v ↔ (k, v) ∈ m.toList := by
  obtain ⟨l, hl⟩ := m
  show l.lookup k = some v ↔ (k, v) ∈ l
  induction l with
  | nil => simp
  | cons p rest ih =>
    obtain ⟨k', v'⟩ := p
    obtain ⟨hp, hrest⟩ := List.pairwise_cons.1 hl
    rw [lookup_cons_eq, List.mem_cons]
    by_cases h : k = k'
    · subst h
      have hnot : (k, v) ∉ rest := fun hmem => String.lt_irrefl k (hp _ hmem)
      simp [hnot, eq_comm]
    · simp [h, ih hrest]

theorem mem_keys {m : OrderedMap α} {k : String} : k ∈ m.keys ↔ (m.get? k).isSome := by
  rw [keys, List.mem_map, Option.isSome_iff_exists]
  constructor
  · rintro ⟨⟨_, v⟩, hmem, rfl⟩
    exact ⟨v, get?_eq_some_iff.2 hmem⟩
  · rintro ⟨v, h⟩
    exact ⟨(k, v), get?_eq_some_iff.1 h, rfl⟩

theorem eq_of_ascending_of_mem_iff {l r : List (String × α)} (hl : Ascending l)
    (hr : Ascending r) (h : ∀ p, p ∈ l ↔ p ∈ r) : l = r := by
  induction l generalizing r with
  | nil =>
    cases r with
    | nil => rfl
    | cons q r => exact absurd ((h q).2 List.mem_cons_self) List.not_mem_nil
  | cons p l ih =>
    cases r with
    | nil => exact absurd ((h p).1 List.mem_cons_self) List.not_mem_nil
    | cons q r =>
      obtain ⟨hp, hl'⟩ := List.pairwise_cons.1 hl
      obtain ⟨hq, hr'⟩ := List.pairwise_cons.1 hr
      have hpq : p = q := by
        rcases List.mem_cons.1 ((h p).1 List.mem_cons_self) with heq | hmem
        · exact heq
        · rcases List.mem_cons.1 ((h q).2 List.mem_cons_self) with heq | hmem'
          · exact heq.symm
          · exact absurd (String.lt_trans (hq p hmem) (hp q hmem')) (String.lt_irrefl _)
      subst hpq
      refine congrArg (p :: ·) (ih hl' hr' fun x => ?_)
      constructor
      · intro hx
        rcases List.mem_cons.1 ((h x).1 (List.mem_cons_of_mem _ hx)) with rfl | hx'
        · exact absurd (hp _ hx) (String.lt_irrefl _)
        · exact hx'
      · intro hx
        rcases List.mem_cons.1 ((h x).2 (List.mem_cons_of_mem _ hx)) with rfl | hx'
        · exact absurd (hq _ hx) (String.lt_irrefl _)
        · exact hx'

/-- A map is determined by its look-ups. -/
theorem ext_get? {m n : OrderedMap α} (h : ∀ k, m.get? k = n.get? k) : m = n := by
  refine ext (eq_of_ascending_of_mem_iff m.ascending n.ascending fun p => ?_)
  rw [← get?_eq_some_iff, ← get?_eq_some_iff, h]

end Coordination.OrderedMap
