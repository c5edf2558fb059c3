import Coordination.Text.Blank
import Coordination.Text.Numeral
import Mathlib.Data.List.Basic

/-!
# Reading numerals

What is written of a natural number is read as that number, with or without a bound that it
keeps, and there are no blanks in it to trim. More is read than is written: a plus sign and zeros
may stand in front of the digits. Among all numerals of a number the plain one, without these, is
the one that is written.
-/

namespace Coordination.Text

theorem digitValue?_of_isDigit {c : Char} (h : c.isDigit = true) :
    digitValue? c = some (c.toNat - '0'.toNat) := by
  simp only [Char.isDigit, Bool.and_eq_true, decide_eq_true_eq] at h
  exact if_pos ⟨h.1, h.2⟩

/-- Digits are read as the number that they stand for. -/
theorem readDigits_eq {s : List Char} (h : ∀ c ∈ s, c.isDigit = true) (n : Nat) :
    readDigits n s = some (Nat.ofDigitChars 10 s n) := by
  induction s generalizing n with
  | nil => rfl
  | cons c rest ih =>
    obtain ⟨hc, hrest⟩ := List.forall_mem_cons.1 h
    rw [readDigits, digitValue?_of_isDigit hc, Nat.ofDigitChars_cons]
    exact ih hrest _

theorem not_isBlank_of_isDigit {c : Char} (h : c.isDigit = true) : isBlank c = false := by
  simp only [Char.isDigit, Bool.and_eq_true, decide_eq_true_eq] at h
  have hlow : 48 ≤ c.toNat := h.1
  have hhigh : c.toNat ≤ 57 := h.2
  simp only [isBlank, Bool.or_eq_false_iff, Bool.and_eq_false_iff, decide_eq_false_iff_not]
  omega

theorem dropWhile_of_forall_not {p : Char → Bool} {s : List Char} (h : ∀ c ∈ s, p c = false) :
    s.dropWhile p = s := by
  cases s with
  | nil => rfl
  | cons c rest => exact List.dropWhile_cons_of_neg (by simp [h c List.mem_cons_self])

theorem trim_of_not_blank {s : List Char} (h : ∀ c ∈ s, isBlank c = false) : trim s = s := by
  rw [trim, trimStart, dropWhile_of_forall_not h, trimEnd,
    dropWhile_of_forall_not fun c hc => h c (List.mem_reverse.1 hc), List.reverse_reverse]

theorem toList_toString_nat (n : Nat) : (toString n).toList = Nat.toDigits 10 n :=
  String.toList_ofList

/-- Digits without a sign are a numeral. -/
theorem readNumeral?_of_digits {bound : Nat} {s : List Char} (hne : s ≠ [])
    (h : ∀ c ∈ s, c.isDigit = true) :
    readNumeral? bound s = (some (Nat.ofDigitChars 10 s 0)).filter (· ≤ bound) := by
  cases s with
  | nil => exact absurd rfl hne
  | cons c rest =>
    have hplus : c ≠ '+' := by
      rintro rfl
      exact absurd (h '+' List.mem_cons_self) (by decide)
    have hread : readNumeral? bound (c :: rest) =
        (readDigits 0 (c :: rest)).filter (· ≤ bound) := by
      simp [readNumeral?, hplus]
    rw [hread, readDigits_eq h]

theorem isDigit_of_mem_toDigits {n : Nat} {c : Char} (h : c ∈ Nat.toDigits 10 n) :
    c.isDigit = true := Nat.isDigit_of_mem_toDigits (by decide) (by decide) h

/-- A number that is written in decimal is read back. -/
theorem readNumeral?_toString {bound n : Nat} (h : n ≤ bound) :
    readNumeral? bound (toString n).toList = some n := by
  rw [toList_toString_nat,
    readNumeral?_of_digits Nat.toDigits_ne_nil fun c hc => isDigit_of_mem_toDigits hc,
    Nat.ofDigitChars_toDigits (by decide) (by decide)]
  exact if_pos (decide_eq_true h)

theorem readNumeral?_trim_toString {bound n : Nat} (h : n ≤ bound) :
    readNumeral? bound (trim (toString n).toList) = some n := by
  have hblank : ∀ c ∈ (toString n).toList, isBlank c = false := fun c hc => by
    rw [toList_toString_nat] at hc
    exact not_isBlank_of_isDigit (isDigit_of_mem_toDigits hc)
  rw [trim_of_not_blank hblank, readNumeral?_toString h]

/-! ## All that is read -/

/-- The text has digits that stand for the number, perhaps behind a plus sign. -/
def IsNumeral (s : List Char) (n : Nat) : Prop :=
  ∃ digits, (s = digits ∨ s = '+' :: digits) ∧ digits ≠ [] ∧
    (∀ c ∈ digits, c.isDigit = true) ∧ Nat.ofDigitChars 10 digits 0 = n

theorem isDigit_of_digitValue? {c : Char} {d : Nat} (h : digitValue? c = some d) :
    c.isDigit = true := by
  rw [digitValue?] at h
  split at h
  · rename_i hrange
    simp only [Char.isDigit, Bool.and_eq_true, decide_eq_true_eq]
    exact ⟨hrange.1, hrange.2⟩
  · cases h

theorem forall_isDigit_of_readDigits {s : List Char} {n m : Nat} (h : readDigits n s = some m) :
    ∀ c ∈ s, c.isDigit = true := by
  induction s generalizing n with
  | nil => exact fun c hc => absurd hc List.not_mem_nil
  | cons c rest ih =>
    obtain ⟨d, hd, hrest⟩ := Option.bind_eq_some_iff.1 h
    exact List.forall_mem_cons.2 ⟨isDigit_of_digitValue? hd, ih hrest⟩

/-- What is read of digits is the number that they stand for, if it keeps the bound. -/
theorem filter_readDigits_eq_some_iff {bound n : Nat} {s : List Char} :
    (readDigits 0 s).filter (· ≤ bound) = some n ↔
      (∀ c ∈ s, c.isDigit = true) ∧ Nat.ofDigitChars 10 s 0 = n ∧ n ≤ bound := by
  rw [Option.filter_eq_some_iff, decide_eq_true_eq]
  constructor
  · rintro ⟨hread, hbound⟩
    have hdigits := forall_isDigit_of_readDigits hread
    rw [readDigits_eq hdigits, Option.some.injEq] at hread
    exact ⟨hdigits, hread, hbound⟩
  · rintro ⟨hdigits, hnumber, hbound⟩
    exact ⟨by rw [readDigits_eq hdigits, hnumber], hbound⟩

/-- The text without the plus sign that may stand in front. -/
def unsigned : List Char → List Char
  | '+' :: rest => rest
  | s => s

theorem eq_unsigned (s : List Char) : s = unsigned s ∨ s = '+' :: unsigned s := by
  rw [unsigned.eq_def]
  split
  · exact Or.inr rfl
  · exact Or.inl rfl

theorem unsigned_of_digits {s digits : List Char} (h : ∀ c ∈ digits, c.isDigit = true)
    (hs : s = digits ∨ s = '+' :: digits) : unsigned s = digits := by
  rcases hs with rfl | rfl
  · rw [unsigned.eq_def]
    split
    · exact absurd (h '+' List.mem_cons_self) (by decide)
    · rfl
  · rfl

/-- A numeral is read if its number keeps the bound, and nothing else is. -/
theorem readNumeral?_eq_some_iff {bound n : Nat} {s : List Char} :
    readNumeral? bound s = some n ↔ IsNumeral s n ∧ n ≤ bound := by
  have hread : readNumeral? bound s = if unsigned s = [] then none
      else (readDigits 0 (unsigned s)).filter (· ≤ bound) := rfl
  rw [hread]
  constructor
  · intro h
    split at h
    · cases h
    · rename_i hne
      obtain ⟨hdigits, hnumber, hbound⟩ := filter_readDigits_eq_some_iff.1 h
      exact ⟨⟨unsigned s, eq_unsigned s, hne, hdigits, hnumber⟩, hbound⟩
  · rintro ⟨⟨digits, hs, hne, hdigits, hnumber⟩, hbound⟩
    rw [unsigned_of_digits hdigits hs, if_neg hne]
    exact filter_readDigits_eq_some_iff.2 ⟨hdigits, hnumber, hbound⟩

theorem IsNumeral.not_mem {s : List Char} {n : Nat} (h : IsNumeral s n) {c : Char}
    (hdigit : c.isDigit = false) (hsign : c ≠ '+') : c ∉ s := by
  obtain ⟨digits, hs, -, hdigits, -⟩ := h
  have hnot : c ∉ digits := fun hc => absurd (hdigits c hc) (by simp [hdigit])
  rcases hs with rfl | rfl
  · exact hnot
  · exact List.not_mem_cons_of_ne_of_not_mem hsign hnot

/-! ## What is written -/

/-- The numeral has no sign, and no zero in front of other digits. -/
def IsPlain (s : List Char) : Prop := s.head? ≠ some '+' ∧ (s.head? = some '0' → s = ['0'])

instance (s : List Char) : Decidable (IsPlain s) := inferInstanceAs (Decidable (_ ∧ _))

theorem digitChar_of_isDigit {c : Char} (h : c.isDigit = true) :
    c.toNat - '0'.toNat < 10 ∧ Nat.digitChar (c.toNat - '0'.toNat) = c := by
  simp only [Char.isDigit, Bool.and_eq_true, decide_eq_true_eq] at h
  have hlow : 48 ≤ c.toNat := h.1
  have hhigh : c.toNat ≤ 57 := h.2
  have hzero : '0'.toNat = 48 := rfl
  refine ⟨by omega, Char.toNat_inj.1 ?_⟩
  rw [Nat.toNat_digitChar_of_lt_ten (by omega)]
  omega

/-- Digits behind a positive number are written behind what is written of the number. -/
theorem toDigits_ofDigitChars_of_pos {s : List Char} (h : ∀ c ∈ s, c.isDigit = true) {n : Nat}
    (hn : 0 < n) : Nat.toDigits 10 (Nat.ofDigitChars 10 s n) = Nat.toDigits 10 n ++ s := by
  induction s generalizing n with
  | nil => rw [Nat.ofDigitChars_nil, List.append_nil]
  | cons c rest ih =>
    obtain ⟨hc, hrest⟩ := List.forall_mem_cons.1 h
    obtain ⟨hdigit, hchar⟩ := digitChar_of_isDigit hc
    rw [Nat.ofDigitChars_cons, ih hrest (by omega),
      ← Nat.toDigits_append_toDigits (by decide) hn hdigit, Nat.toDigits_of_lt_base hdigit, hchar,
      List.append_assoc]
    rfl

/-- Digits without needless zeros are what is written of the number that they stand for. -/
theorem toDigits_ofDigitChars {s : List Char} (hne : s ≠ []) (h : ∀ c ∈ s, c.isDigit = true)
    (hlead : s.head? = some '0' → s = ['0']) :
    Nat.toDigits 10 (Nat.ofDigitChars 10 s 0) = s := by
  cases s with
  | nil => exact absurd rfl hne
  | cons c rest =>
    obtain ⟨hc, hrest⟩ := List.forall_mem_cons.1 h
    by_cases hzero : c = '0'
    · rw [hlead (by rw [hzero, List.head?_cons])]
      rfl
    · obtain ⟨hdigit, hchar⟩ := digitChar_of_isDigit hc
      have hpos : 0 < c.toNat - '0'.toNat := by
        refine Nat.pos_of_ne_zero fun heq => hzero ?_
        rw [← hchar, heq]
        rfl
      rw [Nat.ofDigitChars_cons, Nat.mul_zero, Nat.zero_add,
        toDigits_ofDigitChars_of_pos hrest hpos, Nat.toDigits_of_lt_base hdigit, hchar]
      rfl

/-- Nothing but zero is written with a zero in front. -/
theorem eq_zero_of_head?_toDigits {n : Nat} (h : (Nat.toDigits 10 n).head? = some '0') :
    n = 0 := by
  induction n using Nat.strongRecOn with
  | ind n ih =>
    by_cases hn : n < 10
    · rw [Nat.toDigits_of_lt_base hn, List.head?_cons, Option.some.injEq] at h
      exact Nat.digitChar_eq_zero.1 h
    · rw [Nat.toDigits_of_base_le (by decide) (by omega),
        List.head?_append_of_ne_nil _ Nat.toDigits_ne_nil] at h
      have hrest := ih (n / 10) (by omega) h
      omega

theorem isPlain_toString (n : Nat) : IsPlain (toString n).toList := by
  rw [toList_toString_nat]
  constructor
  · intro hsign
    exact absurd (isDigit_of_mem_toDigits (List.mem_of_head? hsign)) (by decide)
  · intro hlead
    rw [eq_zero_of_head?_toDigits hlead]
    rfl

theorem isNumeral_toString (n : Nat) : IsNumeral (toString n).toList n := by
  rw [toList_toString_nat]
  exact ⟨_, Or.inl rfl, Nat.toDigits_ne_nil, fun c hc => isDigit_of_mem_toDigits hc,
    Nat.ofDigitChars_toDigits (by decide) (by decide)⟩

/-- The plain numeral of a number is what is written of it. -/
theorem IsNumeral.isPlain_iff {s : List Char} {n : Nat} (h : IsNumeral s n) :
    IsPlain s ↔ s = (toString n).toList := by
  obtain ⟨digits, hs, hne, hdigits, hnumber⟩ := h
  constructor
  · rintro ⟨hsign, hlead⟩
    rcases hs with rfl | rfl
    · rw [toList_toString_nat, ← hnumber, toDigits_ofDigitChars hne hdigits hlead]
    · exact absurd rfl hsign
  · rintro rfl
    exact isPlain_toString n

end Coordination.Text
