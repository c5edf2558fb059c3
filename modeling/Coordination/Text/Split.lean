/-!
# Cutting texts

Texts are cut at the first occurrence of a pattern, at the first or the last occurrence of
a character, or at every occurrence of it. Each cut says what it keeps: putting the parts
together again around what was cut out gives the text back.
-/

namespace Coordination.Text

/-- What follows `pattern` in a text that starts with it. -/
def afterStart : List Char → List Char → Option (List Char)
  | [], s => some s
  | _ :: _, [] => none
  | p :: pattern, c :: s => if p = c then afterStart pattern s else none

/-- The text before and after the first occurrence of `pattern`. -/
def breakOn (pattern : List Char) : List Char → Option (List Char × List Char)
  | [] => if pattern = [] then some ([], []) else none
  | c :: rest =>
    match afterStart pattern (c :: rest) with
    | some after => some ([], after)
    | none => (breakOn pattern rest).map fun (before, after) => (c :: before, after)

/-- The text before and after the first `c`. -/
def splitFirst (c : Char) : List Char → Option (List Char × List Char)
  | [] => none
  | x :: rest =>
    if x = c then some ([], rest)
    else (splitFirst c rest).map fun (before, after) => (x :: before, after)

/-- The text before and after the last `c`. -/
def splitLast (c : Char) : List Char → Option (List Char × List Char)
  | [] => none
  | x :: rest =>
    match splitLast c rest with
    | some (before, after) => some (x :: before, after)
    | none => if x = c then some ([], rest) else none

/-- The parts between the occurrences of `c`; one part if there are none. -/
def splitAll (c : Char) : List Char → List (List Char)
  | [] => [[]]
  | x :: rest =>
    match splitAll c rest with
    | [] => [[x]]
    | part :: parts => if x = c then [] :: part :: parts else (x :: part) :: parts

theorem afterStart_eq_some_iff {pattern s rest : List Char} :
    afterStart pattern s = some rest ↔ s = pattern ++ rest := by
  induction pattern generalizing s with
  | nil => simp [afterStart]
  | cons p pattern ih =>
    cases s with
    | nil => simp [afterStart]
    | cons c s =>
      by_cases h : p = c
      · simp [afterStart, h, ih]
      · simp [afterStart, h, Ne.symm h]

theorem breakOn_eq_append {pattern s before after : List Char}
    (h : breakOn pattern s = some (before, after)) : s = before ++ pattern ++ after := by
  induction s generalizing before with
  | nil =>
    by_cases hp : pattern = []
    · simp [breakOn, hp] at h
      simp [h, hp]
    · simp [breakOn, hp] at h
  | cons c rest ih =>
    rw [breakOn] at h
    cases hpre : afterStart pattern (c :: rest) with
    | some tail =>
      simp only [hpre, Option.some.injEq, Prod.mk.injEq] at h
      obtain ⟨rfl, rfl⟩ := h
      simpa using afterStart_eq_some_iff.1 hpre
    | none =>
      simp only [hpre] at h
      obtain ⟨⟨b, a⟩, hb, hab⟩ := Option.map_eq_some_iff.1 h
      simp only [Prod.mk.injEq] at hab
      obtain ⟨rfl, rfl⟩ := hab
      simp [ih hb]

theorem splitFirst_eq_append {c : Char} {s before after : List Char}
    (h : splitFirst c s = some (before, after)) : s = before ++ c :: after := by
  induction s generalizing before with
  | nil => simp [splitFirst] at h
  | cons x rest ih =>
    by_cases hx : x = c
    · simp only [splitFirst, hx, if_true, Option.some.injEq, Prod.mk.injEq] at h
      obtain ⟨rfl, rfl⟩ := h
      simp [hx]
    · simp only [splitFirst, hx, if_false, Option.map_eq_some_iff, Prod.mk.injEq] at h
      obtain ⟨⟨b, a⟩, hb, rfl, rfl⟩ := h
      simp [ih hb]

theorem splitLast_of_not_mem {c : Char} {s : List Char} (h : c ∉ s) : splitLast c s = none := by
  induction s with
  | nil => rfl
  | cons x rest ih =>
    have hx : x ≠ c := fun hx => h (hx ▸ List.mem_cons_self)
    have hrest : c ∉ rest := fun hrest => h (List.mem_cons_of_mem _ hrest)
    rw [splitLast, ih hrest]
    exact if_neg hx

/-- A text is cut at a `c` that none follows. -/
theorem splitLast_append {c : Char} {after : List Char} (before : List Char) (h : c ∉ after) :
    splitLast c (before ++ c :: after) = some (before, after) := by
  induction before with
  | nil =>
    rw [List.nil_append, splitLast, splitLast_of_not_mem h]
    exact if_pos rfl
  | cons x rest ih => rw [List.cons_append, splitLast, ih]

theorem splitAll_ne_nil (c : Char) (s : List Char) : splitAll c s ≠ [] := by
  cases s with
  | nil => simp [splitAll]
  | cons x rest =>
    rw [splitAll]
    split
    · simp
    · split <;> simp

end Coordination.Text
