import Coordination.Text.Blank
import Coordination.Text.Split
import Mathlib.Data.List.DropRight
import Mathlib.Data.List.Infix

/-!
# Where texts are cut

A text is cut at the first occurrence of a pattern exactly if the pattern occurs nowhere in what
comes before, not even with some of its own letters at the end. For a doubled character this is
to say that the part before has no such pair and does not end with the character. Parts without
the cut character are the parts of what they make up. What trimming takes off is blank, and what
it leaves has no blank at either end.
-/

namespace Coordination.Text

/-! ## The first occurrence of a pattern -/

variable {pattern s before after : List Char}

theorem afterStart_eq_none_iff : afterStart pattern s = none ↔ ¬ pattern <+: s := by
  constructor
  · rintro h ⟨rest, rfl⟩
    rw [afterStart_eq_some_iff.2 rfl] at h
    cases h
  · intro h
    cases hafter : afterStart pattern s with
    | none => rfl
    | some rest => exact absurd ⟨rest, (afterStart_eq_some_iff.1 hafter).symm⟩ h

theorem breakOn_cons_of_not_start {c : Char} {rest : List Char} (h : ¬ pattern <+: c :: rest) :
    breakOn pattern (c :: rest) =
      (breakOn pattern rest).map fun (before, after) => (c :: before, after) := by
  rw [breakOn, afterStart_eq_none_iff.2 h]

theorem breakOn_start (h : pattern ≠ []) (rest : List Char) :
    breakOn pattern (pattern ++ rest) = some ([], rest) := by
  have hafter : afterStart pattern (pattern ++ rest) = some rest := afterStart_eq_some_iff.2 rfl
  cases hcons : pattern ++ rest with
  | nil => exact absurd (List.append_eq_nil_iff.1 hcons).1 h
  | cons c tail => rw [breakOn, ← hcons, hafter]

theorem breakOn_eq_none_iff : breakOn pattern s = none ↔ ¬ pattern <:+: s := by
  induction s with
  | nil => simp [breakOn]
  | cons c rest ih =>
    by_cases hstart : pattern <+: c :: rest
    · obtain ⟨tail, htail⟩ := hstart
      rw [breakOn, afterStart_eq_some_iff.2 htail.symm]
      exact iff_of_false (Option.some_ne_none _) fun h =>
        h (List.IsPrefix.isInfix ⟨tail, htail⟩)
    · rw [breakOn_cons_of_not_start hstart, Option.map_eq_none_iff, ih, List.infix_cons_iff,
        or_iff_right hstart]

/-- A pattern that starts in front of itself starts so when its last letter is missing. -/
theorem start_of_start_append (h : pattern ≠ []) {c : Char} {part rest : List Char}
    (hstart : pattern <+: c :: (part ++ pattern ++ rest)) :
    pattern <+: c :: (part ++ pattern.dropLast) := by
  have hcut : c :: (part ++ pattern.dropLast) <+: c :: (part ++ pattern ++ rest) := by
    rw [List.append_assoc, List.prefix_cons_inj, List.prefix_append_right_inj]
    exact (List.dropLast_prefix pattern).trans (List.prefix_append pattern rest)
  refine List.prefix_of_prefix_length_le hstart hcut ?_
  have hpos := List.length_pos_iff.2 h
  rw [List.length_cons, List.length_append, List.length_dropLast]
  omega

/-- A text is cut where the pattern comes first. -/
theorem breakOn_append (h : pattern ≠ []) (hfirst : ¬ pattern <:+: before ++ pattern.dropLast) :
    breakOn pattern (before ++ pattern ++ after) = some (before, after) := by
  induction before with
  | nil => exact breakOn_start h after
  | cons c part ih =>
    rw [List.cons_append, List.infix_cons_iff, not_or] at hfirst
    have hstart : ¬ pattern <+: c :: (part ++ pattern ++ after) := fun hstart =>
      hfirst.1 (start_of_start_append h hstart)
    rw [List.cons_append, List.cons_append, breakOn_cons_of_not_start hstart, ih hfirst.2]
    rfl

/-- Where a text is cut, the pattern comes first. -/
theorem not_infix_of_breakOn (hne : pattern ≠ [])
    (h : breakOn pattern s = some (before, after)) : ¬ pattern <:+: before ++ pattern.dropLast := by
  induction s generalizing before with
  | nil =>
    rw [breakOn, if_neg hne] at h
    cases h
  | cons c rest ih =>
    by_cases hstart : pattern <+: c :: rest
    · obtain ⟨tail, htail⟩ := hstart
      rw [breakOn, afterStart_eq_some_iff.2 htail.symm] at h
      cases h
      intro hinfix
      have hlength := hinfix.length_le
      have hpos := List.length_pos_iff.2 hne
      rw [List.nil_append, List.length_dropLast] at hlength
      omega
    · rw [breakOn_cons_of_not_start hstart] at h
      obtain ⟨⟨part, rest'⟩, hrest, hcut⟩ := Option.map_eq_some_iff.1 h
      cases hcut
      rw [List.cons_append, List.infix_cons_iff, not_or]
      refine ⟨fun hpart => hstart (hpart.trans ?_), ih hrest⟩
      rw [breakOn_eq_append hrest, List.prefix_cons_inj, List.append_assoc,
        List.prefix_append_right_inj]
      exact (List.dropLast_prefix pattern).trans (List.prefix_append pattern after)

/-- A text is cut at a pattern into what comes before its first occurrence and what comes
behind it. -/
theorem breakOn_eq_some_iff (hne : pattern ≠ []) : breakOn pattern s = some (before, after) ↔
    s = before ++ pattern ++ after ∧ ¬ pattern <:+: before ++ pattern.dropLast := by
  constructor
  · exact fun h => ⟨breakOn_eq_append h, not_infix_of_breakOn hne h⟩
  · rintro ⟨rfl, hfirst⟩
    exact breakOn_append hne hfirst

/-! ## Doubled characters -/

variable {c : Char}

/-- A pair occurs in two texts together if it occurs in one of them, or where they meet. -/
theorem pair_infix_append_iff {a b : List Char} : [c, c] <:+: a ++ b ↔
    [c, c] <:+: a ∨ [c, c] <:+: b ∨ (a.getLast? = some c ∧ b.head? = some c) := by
  rw [List.infix_append_iff]
  constructor
  · rintro (h | h | ⟨l, r, hpair, ha, hb⟩)
    · exact Or.inl h
    · exact Or.inr (Or.inl h)
    · match l, hpair with
      | [], hpair =>
        rw [hpair]
        exact Or.inr (Or.inl hb.isInfix)
      | [x], hpair =>
        obtain ⟨rfl, rfl⟩ := List.cons.inj hpair
        obtain ⟨part, rfl⟩ := ha
        obtain ⟨rest, rfl⟩ := hb
        exact Or.inr (Or.inr ⟨List.getLast?_concat, rfl⟩)
      | x :: y :: l, hpair =>
        have hnil : r = [] := by
          have hlength := congrArg List.length hpair
          simp only [List.length_append, List.length_cons, List.length_nil] at hlength
          exact List.length_eq_zero_iff.1 (by omega)
        rw [hpair, hnil, List.append_nil]
        exact Or.inl ha.isInfix
  · rintro (h | h | ⟨ha, hb⟩)
    · exact Or.inl h
    · exact Or.inr (Or.inl h)
    · obtain ⟨part, rfl⟩ := List.getLast?_eq_some_iff.1 ha
      obtain ⟨rest, rfl⟩ := List.head?_eq_some_iff.1 hb
      exact Or.inr (Or.inr ⟨[c], [c], rfl, ⟨part, rfl⟩, ⟨rest, rfl⟩⟩)

/-- A pair comes first behind a text that has no such pair and does not end with its character. -/
theorem pair_first_iff {a : List Char} : ¬ [c, c] <:+: a ++ [c, c].dropLast ↔
    ¬ [c, c] <:+: a ∧ a.getLast? ≠ some c := by
  have hone : ¬ [c, c] <:+: [c] := fun h => absurd h.length_le (by simp)
  rw [List.dropLast_cons_cons, List.dropLast_singleton, pair_infix_append_iff]
  simp [hone]

theorem pair_first_of_not_mem {a : List Char} (h : c ∉ a) :
    ¬ [c, c] <:+: a ++ [c, c].dropLast :=
  pair_first_iff.2 ⟨fun hpair => h (hpair.subset List.mem_cons_self),
    fun hlast => h (List.mem_of_getLast? hlast)⟩

/-! ## Patterns that cannot overlap themselves -/

/-- A pattern of which no start is also an end. -/
def Unbordered (pattern : List Char) : Prop :=
  ∀ l ∈ pattern.tails, l <+: pattern.dropLast → l = []

instance (pattern : List Char) : Decidable (Unbordered pattern) := List.decidableBAll _ _

/-- Such a pattern comes first behind a text exactly if the text does not hold it. -/
theorem Unbordered.first_iff (h : Unbordered pattern) (hne : pattern ≠ []) {a : List Char} :
    ¬ pattern <:+: a ++ pattern.dropLast ↔ ¬ pattern <:+: a := by
  refine not_congr ⟨fun hinfix => ?_, fun hinfix => hinfix.trans (List.infix_append' [] a _)⟩
  rcases List.infix_append_iff.1 hinfix with ha | hdrop | ⟨l, r, hpattern, hl, hr⟩
  · exact ha
  · have hlength := hdrop.length_le
    have hpos := List.length_pos_iff.2 hne
    rw [List.length_dropLast] at hlength
    omega
  · -- the end of the pattern that stands behind the text is empty
    obtain rfl := h r ((List.mem_tails r pattern).2 ⟨l, hpattern.symm⟩) hr
    rw [List.append_nil] at hpattern
    exact hpattern ▸ hl.isInfix

/-! ## Parts between cuts -/

theorem splitFirst_append {before : List Char} (h : c ∉ before) (after : List Char) :
    splitFirst c (before ++ c :: after) = some (before, after) := by
  induction before with
  | nil => exact if_pos rfl
  | cons x rest ih =>
    obtain ⟨hx, hrest⟩ := List.ne_and_not_mem_of_not_mem_cons h
    rw [List.cons_append, splitFirst, if_neg hx.symm, ih hrest]
    rfl

theorem splitAll_cons_self (c : Char) (rest : List Char) :
    splitAll c (c :: rest) = [] :: splitAll c rest := by
  rw [splitAll]
  cases h : splitAll c rest with
  | nil => exact absurd h (splitAll_ne_nil c rest)
  | cons part parts => simp

theorem splitAll_cons_of_ne {c x : Char} (hx : x ≠ c) (rest : List Char) :
    ∃ part parts, splitAll c rest = part :: parts ∧
      splitAll c (x :: rest) = (x :: part) :: parts := by
  cases h : splitAll c rest with
  | nil => exact absurd h (splitAll_ne_nil c rest)
  | cons part parts => exact ⟨part, parts, rfl, by simp [splitAll, h, hx]⟩

theorem splitAll_append (c : Char) (a b : List Char) :
    splitAll c (a ++ c :: b) = splitAll c a ++ splitAll c b := by
  induction a with
  | nil => rw [List.nil_append, splitAll_cons_self]; rfl
  | cons x a ih =>
    by_cases hx : x = c
    · subst hx
      rw [List.cons_append, splitAll_cons_self, splitAll_cons_self, ih]
      rfl
    · obtain ⟨part, parts, ha, hxa⟩ := splitAll_cons_of_ne hx a
      obtain ⟨part', parts', hb, hxb⟩ := splitAll_cons_of_ne hx (a ++ c :: b)
      rw [ih, ha, List.cons_append, List.cons.injEq] at hb
      rw [List.cons_append, hxb, hxa, List.cons_append, hb.1, hb.2]

theorem splitAll_of_not_mem {c : Char} {s : List Char} (h : c ∉ s) : splitAll c s = [s] := by
  induction s with
  | nil => rfl
  | cons x s ih =>
    have hx : x ≠ c := fun hx => h (hx ▸ List.mem_cons_self)
    have hs : c ∉ s := fun hs => h (List.mem_cons_of_mem _ hs)
    simp [splitAll, ih hs, hx]

/-- Every text is a part, or a part followed by the cut character and a text. -/
theorem exists_first_part (c : Char) (s : List Char) :
    c ∉ s ∨ ∃ part rest, c ∉ part ∧ s = part ++ c :: rest := by
  by_cases h : c ∈ s
  · obtain ⟨part, rest, hs, hpart⟩ := List.eq_append_cons_of_mem h
    exact Or.inr ⟨part, rest, hpart, hs⟩
  · exact Or.inl h

/-- A text that has the cut character ends with it and a last part. -/
theorem exists_last_part (c : Char) (s : List Char) :
    c ∉ s ∨ ∃ rest part, c ∉ part ∧ s = rest ++ c :: part := by
  induction s with
  | nil => exact Or.inl List.not_mem_nil
  | cons x s ih =>
    rcases ih with hs | ⟨rest, part, hpart, hs⟩
    · by_cases hx : x = c
      · exact Or.inr ⟨[], s, hs, by rw [hx]; rfl⟩
      · refine Or.inl fun hmem => ?_
        rcases List.mem_cons.1 hmem with h | h
        · exact hx h.symm
        · exact hs h
    · exact Or.inr ⟨x :: rest, part, hpart, by rw [hs]; rfl⟩

/-- Where the last part starts does not depend on how it is found. -/
theorem last_part_unique {c : Char} {a a' b b' : List Char} (hb : c ∉ b) (hb' : c ∉ b')
    (h : a ++ c :: b = a' ++ c :: b') : a = a' ∧ b = b' := by
  induction a generalizing a' with
  | nil =>
    cases a' with
    | nil => exact ⟨rfl, (List.cons.inj h).2⟩
    | cons x a' =>
      have hrest : b = a' ++ c :: b' := (List.cons.inj h).2
      exact absurd (hrest ▸ List.mem_append_right _ List.mem_cons_self) hb
  | cons x a ih =>
    cases a' with
    | nil =>
      have hrest : a ++ c :: b = b' := (List.cons.inj h).2
      exact absurd (hrest ▸ List.mem_append_right _ List.mem_cons_self) hb'
    | cons y a' =>
      obtain ⟨hxy, hrest⟩ := List.cons.inj h
      obtain ⟨ha, hb⟩ := ih hrest
      exact ⟨by rw [hxy, ha], hb⟩

/-- A text is cut at the first `c` into what comes before it and what comes behind it. -/
theorem splitFirst_eq_some_iff : splitFirst c s = some (before, after) ↔
    s = before ++ c :: after ∧ c ∉ before := by
  constructor
  · intro h
    have hmem : c ∈ s := by
      rw [splitFirst_eq_append h]
      exact List.mem_append_right _ List.mem_cons_self
    obtain ⟨part, rest, hpart, hs⟩ := (exists_first_part c s).resolve_left (not_not_intro hmem)
    rw [hs, splitFirst_append hpart] at h
    cases h
    exact ⟨hs, hpart⟩
  · rintro ⟨rfl, hbefore⟩
    exact splitFirst_append hbefore after

/-- A text is cut at the last `c` into what comes before it and what comes behind it. -/
theorem splitLast_eq_some_iff : splitLast c s = some (before, after) ↔
    s = before ++ c :: after ∧ c ∉ after := by
  constructor
  · intro h
    rcases exists_last_part c s with hs | ⟨rest, part, hpart, hs⟩
    · rw [splitLast_of_not_mem hs] at h
      cases h
    · rw [hs, splitLast_append rest hpart] at h
      cases h
      exact ⟨hs, hpart⟩
  · rintro ⟨rfl, hafter⟩
    exact splitLast_append before hafter

theorem splitLast_eq_none_iff : splitLast c s = none ↔ c ∉ s := by
  constructor
  · intro h hmem
    obtain ⟨rest, part, hpart, hs⟩ := (exists_last_part c s).resolve_left (not_not_intro hmem)
    rw [hs, splitLast_append rest hpart] at h
    cases h
  · exact splitLast_of_not_mem

/-- What stands before the first cut lengthens the first part. -/
theorem splitAll_append_of_not_mem {c : Char} {part s first : List Char}
    {parts : List (List Char)} (h : c ∉ part) (hs : splitAll c s = first :: parts) :
    splitAll c (part ++ s) = (part ++ first) :: parts := by
  induction part with
  | nil => exact hs
  | cons x part ih =>
    obtain ⟨hx, hpart⟩ := List.ne_and_not_mem_of_not_mem_cons h
    rw [List.cons_append, splitAll, ih hpart]
    exact if_neg hx.symm

/-- Parts without the cut character, each behind one, are the parts that a text is cut into. -/
theorem splitAll_flatMap {c : Char} {parts : List (List Char)} (h : ∀ part ∈ parts, c ∉ part) :
    splitAll c (parts.flatMap (c :: ·)) = [] :: parts := by
  induction parts with
  | nil => rfl
  | cons part parts ih =>
    obtain ⟨hpart, hparts⟩ := List.forall_mem_cons.1 h
    rw [List.flatMap_cons, List.cons_append, splitAll_cons_self,
      splitAll_append_of_not_mem hpart (ih hparts), List.append_nil]

/-- Texts that are put together with a separator, each behind one. -/
theorem flatMap_intercalate (sep : String) {parts : List String} (h : parts ≠ []) :
    parts.flatMap (fun part => sep.toList ++ part.toList) =
      sep.toList ++ (sep.intercalate parts).toList := by
  induction parts with
  | nil => exact absurd rfl h
  | cons part rest ih =>
    by_cases hrest : rest = []
    · subst hrest
      rw [String.intercalate_singleton, List.flatMap_cons, List.flatMap_nil, List.append_nil]
    · rw [List.flatMap_cons, ih hrest, String.intercalate_cons_of_ne_nil hrest,
        String.toList_append, String.toList_append, List.append_assoc, List.append_assoc]

/-- A text is its parts, with the cut character between them. -/
theorem flatMap_splitAll (c : Char) (s : List Char) :
    (splitAll c s).flatMap (c :: ·) = c :: s := by
  induction s with
  | nil => rfl
  | cons x s ih =>
    by_cases hx : x = c
    · subst hx
      rw [splitAll_cons_self, List.flatMap_cons, ih]
      rfl
    · obtain ⟨part, parts, hs, hxs⟩ := splitAll_cons_of_ne hx s
      rw [hs, List.flatMap_cons, List.cons_append, List.cons.injEq] at ih
      rw [hxs, List.flatMap_cons, List.cons_append, List.cons_append, ih.2]

/-! ## Trimming -/

/-- A text of blanks only. -/
def Gap (s : List Char) : Prop := ∀ c ∈ s, isBlank c = true

instance (s : List Char) : Decidable (Gap s) := List.decidableBAll _ _

theorem Gap.dropWhile {g : List Char} (h : Gap g) : g.dropWhile isBlank = [] :=
  List.dropWhile_eq_nil_iff.2 h

theorem trimStart_gap {g : List Char} (h : Gap g) (s : List Char) :
    trimStart (g ++ s) = trimStart s := by
  rw [trimStart, List.dropWhile_append, h.dropWhile]
  rfl

/-- What is dropped at the start is blank. -/
theorem exists_gap_trimStart (s : List Char) : ∃ g, Gap g ∧ s = g ++ trimStart s :=
  ⟨s.takeWhile isBlank, fun _ hc => List.mem_takeWhile_imp hc,
    List.takeWhile_append_dropWhile.symm⟩

theorem trimStart_of_head {s : List Char} (h : ∀ c, s.head? = some c → isBlank c = false) :
    trimStart s = s := by
  cases s with
  | nil => rfl
  | cons c rest => exact List.dropWhile_cons_of_neg (by simp [h c rfl])

theorem trimEnd_gap {g : List Char} (h : Gap g) (s : List Char) :
    trimEnd (s ++ g) = trimEnd s := by
  have hreverse : Gap g.reverse := fun c hc => h c (List.mem_reverse.1 hc)
  have hdrop : (s ++ g).reverse.dropWhile isBlank = s.reverse.dropWhile isBlank := by
    rw [List.reverse_append]
    exact trimStart_gap hreverse s.reverse
  rw [trimEnd, hdrop, trimEnd]

/-- What is dropped at the end is blank. -/
theorem exists_gap_trimEnd (s : List Char) : ∃ g, Gap g ∧ s = trimEnd s ++ g := by
  obtain ⟨g, hg, hs⟩ := exists_gap_trimStart s.reverse
  refine ⟨g.reverse, fun c hc => hg c (List.mem_reverse.1 hc), ?_⟩
  have hreverse := congrArg List.reverse hs
  rwa [List.reverse_reverse, List.reverse_append] at hreverse

theorem trimEnd_of_getLast {s : List Char}
    (h : ∀ c, s.getLast? = some c → isBlank c = false) : trimEnd s = s := by
  have hstart : trimStart s.reverse = s.reverse :=
    trimStart_of_head fun c hc => h c (List.head?_reverse ▸ hc)
  show (trimStart s.reverse).reverse = s
  rw [hstart, List.reverse_reverse]

/-- A text with a blank at neither end. -/
structure Trimmed (s : List Char) : Prop where
  start : ∀ c, s.head? = some c → isBlank c = false
  finish : ∀ c, s.getLast? = some c → isBlank c = false

/-- Trimming takes off the blanks around a trimmed text, and nothing of it. -/
theorem trim_gaps {l s r : List Char} (hl : Gap l) (hs : Trimmed s) (hr : Gap r) :
    trim (l ++ s ++ r) = s := by
  rw [trim, List.append_assoc, trimStart_gap hl]
  cases s with
  | nil =>
    show trimEnd (trimStart r) = []
    have hnil : trimStart r = [] := hr.dropWhile
    rw [hnil]
    rfl
  | cons c rest =>
    have hstart : trimStart (c :: rest ++ r) = c :: rest ++ r :=
      trimStart_of_head fun x hx => hs.start x hx
    rw [hstart, trimEnd_gap hr, trimEnd_of_getLast hs.finish]

/-- Around what trimming leaves there were blanks only. -/
theorem exists_gaps_trim (s : List Char) : ∃ l r, Gap l ∧ Gap r ∧ s = l ++ trim s ++ r := by
  obtain ⟨l, hl, hs⟩ := exists_gap_trimStart s
  obtain ⟨r, hr, hend⟩ := exists_gap_trimEnd (trimStart s)
  refine ⟨l, r, hl, hr, ?_⟩
  rw [List.append_assoc, trim, ← hend]
  exact hs

end Coordination.Text
