import Coordination.Text.Utf8
import Mathlib.Tactic.SplitIfs

/-!
# Decoding what was encoded

The bytes of a text decode to the text. A character's bytes tell the character and how many
they are, whatever follows them, and they are in the order of the characters.
-/

namespace Coordination.Text.Utf8

theorem toNat_ofNat {n : Nat} (h : n < 256) : (UInt8.ofNat n).toNat = n :=
  UInt8.toNat_ofNat_of_lt' h

theorem isContinuation_ofNat (n : Nat) : isContinuation (UInt8.ofNat (n % 64 + 128)) = true := by
  have hbyte := toNat_ofNat (n := n % 64 + 128) (by omega)
  rw [isContinuation, Bool.and_eq_true, decide_eq_true_eq, decide_eq_true_eq,
    UInt8.le_iff_toNat_le, UInt8.le_iff_toNat_le, hbyte]
  have hlow : (0x80 : UInt8).toNat = 128 := rfl
  have hhigh : (0xBF : UInt8).toNat = 191 := rfl
  omega

theorem payload_ofNat (n : Nat) : payload (UInt8.ofNat (n % 64 + 128)) = n % 64 := by
  rw [payload, toNat_ofNat (by omega)]
  omega

/-- Characters are the numbers below 0x110000 without the surrogates. -/
theorem toNat_val_bounds (c : Char) :
    c.val.toNat < 0xD800 ∨ (0xDFFF < c.val.toNat ∧ c.val.toNat < 0x110000) := c.valid

theorem ofNat_toNat_val (c : Char) : Char.ofNat c.val.toNat = c := Char.ofNat_toNat c

theorem lead_encode_two {n : Nat} (hlow : 0x7f < n) (hhigh : n ≤ 0x7ff) (rest : Bytes) :
    lead (UInt8.ofNat (n / 64 % 32 + 192)) (UInt8.ofNat (n % 64 + 128) :: rest) =
      .scalar (Char.ofNat n) 2 := by
  have hbyte := toNat_ofNat (n := n / 64 % 32 + 192) (by omega)
  have hvalue : (n / 64 % 32 + 192) % 32 * 64 + n % 64 = n := by omega
  rw [lead, if_neg, if_pos, lead2, if_pos (isContinuation_ofNat n), payload_ofNat, hbyte, hvalue]
  · simp only [UInt8.le_iff_toNat_le, hbyte, UInt8.reduceToNat]
    omega
  · simp only [UInt8.lt_iff_toNat_lt, hbyte, UInt8.reduceToNat]
    omega

/-- The second byte is in the range that the first one leaves to it. -/
theorem secondRange_ofNat {b : UInt8} {n : Nat} (hE0 : b = 0xE0 → 32 ≤ n % 64)
    (hED : b = 0xED → n % 64 < 32) (hF0 : b = 0xF0 → 16 ≤ n % 64)
    (hF4 : b = 0xF4 → n % 64 < 16) :
    (secondRange b).1 ≤ UInt8.ofNat (n % 64 + 128) ∧
      UInt8.ofNat (n % 64 + 128) ≤ (secondRange b).2 := by
  have hbyte := toNat_ofNat (n := n % 64 + 128) (by omega)
  rw [UInt8.le_iff_toNat_le, UInt8.le_iff_toNat_le, hbyte, secondRange]
  split
  · rename_i h
    have hn := hE0 h
    simp only [UInt8.reduceToNat]
    omega
  · split
    · rename_i h
      have hn := hED h
      simp only [UInt8.reduceToNat]
      omega
    · split
      · rename_i h
        have hn := hF0 h
        simp only [UInt8.reduceToNat]
        omega
      · split
        · rename_i h
          have hn := hF4 h
          simp only [UInt8.reduceToNat]
          omega
        · simp only [UInt8.reduceToNat]
          omega

/-- A byte is told by its number. -/
theorem eq_of_ofNat_eq {n : Nat} {b : UInt8} (h : n < 256) (heq : UInt8.ofNat n = b) :
    n = b.toNat := by
  rw [← heq, toNat_ofNat h]

theorem lead_encode_three {n : Nat} (hlow : 0x7ff < n) (hhigh : n ≤ 0xffff)
    (hscalar : n < 0xD800 ∨ 0xDFFF < n) (rest : Bytes) :
    lead (UInt8.ofNat (n / 4096 % 16 + 224))
      (UInt8.ofNat (n / 64 % 64 + 128) :: UInt8.ofNat (n % 64 + 128) :: rest) =
      .scalar (Char.ofNat n) 3 := by
  have hbyte := toNat_ofNat (n := n / 4096 % 16 + 224) (by omega)
  have hvalue : ((n / 4096 % 16 + 224) % 16 * 64 + n / 64 % 64) * 64 + n % 64 = n := by omega
  have hsecond : (secondRange (UInt8.ofNat (n / 4096 % 16 + 224))).1 ≤
        UInt8.ofNat (n / 64 % 64 + 128) ∧
      UInt8.ofNat (n / 64 % 64 + 128) ≤ (secondRange (UInt8.ofNat (n / 4096 % 16 + 224))).2 := by
    refine secondRange_ofNat (fun h => ?_) (fun h => ?_) (fun h => ?_) (fun h => ?_)
    all_goals
      have hnumber := eq_of_ofNat_eq (by omega) h
      simp only [UInt8.reduceToNat] at hnumber
      omega
  rw [lead, if_neg, if_neg, if_pos, lead3, if_pos hsecond]
  · show (if isContinuation (UInt8.ofNat (n % 64 + 128)) then _ else _) = _
    rw [if_pos (isContinuation_ofNat n), payload_ofNat, payload_ofNat, hbyte, hvalue]
  all_goals
    simp only [UInt8.le_iff_toNat_le, UInt8.lt_iff_toNat_lt, hbyte, UInt8.reduceToNat]
    omega

theorem lead_encode_four {n : Nat} (hlow : 0xffff < n) (hhigh : n < 0x110000) (rest : Bytes) :
    lead (UInt8.ofNat (n / 262144 % 8 + 240))
      (UInt8.ofNat (n / 4096 % 64 + 128) :: UInt8.ofNat (n / 64 % 64 + 128) ::
        UInt8.ofNat (n % 64 + 128) :: rest) = .scalar (Char.ofNat n) 4 := by
  have hbyte := toNat_ofNat (n := n / 262144 % 8 + 240) (by omega)
  have hvalue : (((n / 262144 % 8 + 240) % 8 * 64 + n / 4096 % 64) * 64 + n / 64 % 64) * 64 +
      n % 64 = n := by omega
  have hsecond : (secondRange (UInt8.ofNat (n / 262144 % 8 + 240))).1 ≤
        UInt8.ofNat (n / 4096 % 64 + 128) ∧
      UInt8.ofNat (n / 4096 % 64 + 128) ≤ (secondRange (UInt8.ofNat (n / 262144 % 8 + 240))).2 := by
    refine secondRange_ofNat (fun h => ?_) (fun h => ?_) (fun h => ?_) (fun h => ?_)
    all_goals
      have hnumber := eq_of_ofNat_eq (by omega) h
      simp only [UInt8.reduceToNat] at hnumber
      omega
  rw [lead, if_neg, if_neg, if_neg, if_pos, lead4, if_pos hsecond]
  · show (if isContinuation (UInt8.ofNat (n / 64 % 64 + 128)) then
        (if isContinuation (UInt8.ofNat (n % 64 + 128)) then _ else _) else _) = _
    rw [if_pos (isContinuation_ofNat _), if_pos (isContinuation_ofNat _), payload_ofNat,
      payload_ofNat, payload_ofNat, hbyte, hvalue]
  all_goals
    simp only [UInt8.le_iff_toNat_le, UInt8.lt_iff_toNat_lt, hbyte, UInt8.reduceToNat]
    omega

/-- The bytes of a character tell the character and their number. -/
theorem lead_encode (c : Char) (rest : Bytes) :
    ∃ b tail, String.utf8EncodeChar c = b :: tail ∧
      lead b (tail ++ rest) = .scalar c (tail.length + 1) := by
  have hbounds := toNat_val_bounds c
  have hchar := ofNat_toNat_val c
  rw [String.utf8EncodeChar]
  generalize c.val.toNat = n at hbounds hchar
  rw [← hchar]
  by_cases hone : n ≤ 0x7f
  · have hbyte := toNat_ofNat (n := n) (by omega)
    rw [if_pos hone]
    refine ⟨_, _, rfl, ?_⟩
    rw [lead, if_pos, hbyte]
    · rfl
    · simp only [UInt8.lt_iff_toNat_lt, hbyte, UInt8.reduceToNat]
      omega
  · rw [if_neg hone]
    by_cases htwo : n ≤ 0x7ff
    · rw [if_pos htwo]
      exact ⟨_, _, rfl, lead_encode_two (by omega) htwo rest⟩
    · rw [if_neg htwo]
      by_cases hthree : n ≤ 0xffff
      · rw [if_pos hthree]
        exact ⟨_, _, rfl, lead_encode_three (by omega) hthree (by omega) rest⟩
      · rw [if_neg hthree]
        exact ⟨_, _, rfl, lead_encode_four (by omega) (by omega) rest⟩

theorem decodeFrom_encode (l : List Char) (index : Nat) :
    decodeFrom index (l.flatMap String.utf8EncodeChar) = .ok l := by
  induction l generalizing index with
  | nil => rw [List.flatMap_nil, decodeFrom]
  | cons c l ih =>
    obtain ⟨b, tail, hbytes, hlead⟩ := lead_encode c (l.flatMap String.utf8EncodeChar)
    rw [List.flatMap_cons, hbytes, List.cons_append, decodeFrom]
    simp only [hlead, Nat.add_sub_cancel, List.drop_left]
    rw [ih]
    rfl

theorem decode_encode (s : String) : decode (encode s) = .ok s := by
  rw [decode, encode, decodeFrom_encode]
  exact congrArg Except.ok String.ofList_toList

theorem lenientChars_encode (l : List Char) :
    lenientChars (l.flatMap String.utf8EncodeChar) = l := by
  induction l with
  | nil => rw [List.flatMap_nil, lenientChars]
  | cons c l ih =>
    obtain ⟨b, tail, hbytes, hlead⟩ := lead_encode c (l.flatMap String.utf8EncodeChar)
    rw [List.flatMap_cons, hbytes, List.cons_append, lenientChars]
    simp only [hlead, Nat.add_sub_cancel, List.drop_left]
    rw [ih]

/-- In the bytes of a text there is nothing to replace. -/
theorem decodeLenient_encode (s : String) : decodeLenient (encode s) = s := by
  rw [decodeLenient, encode, lenientChars_encode, String.ofList_toList]

theorem encode_injective {s s' : String} (h : encode s = encode s') : s = s' := by
  have hdecode := congrArg decode h
  rw [decode_encode, decode_encode] at hdecode
  exact Except.ok.inj hdecode

/-! ## Order -/

theorem ofNat_lt_ofNat_iff {m n : Nat} (hm : m < 256) (hn : n < 256) :
    UInt8.ofNat m < UInt8.ofNat n ↔ m < n := by
  rw [UInt8.lt_iff_toNat_lt, toNat_ofNat hm, toNat_ofNat hn]

theorem ofNat_eq_ofNat_iff {m n : Nat} (hm : m < 256) (hn : n < 256) :
    UInt8.ofNat m = UInt8.ofNat n ↔ m = n := by
  rw [← UInt8.toNat_inj, toNat_ofNat hm, toNat_ofNat hn]

/-- Numbers compare by their last digits where the digits before them agree. -/
theorem digits_lt {m n : Nat} (h : m < n) :
    m / 64 < n / 64 ∨ m / 64 = n / 64 ∧ m % 64 < n % 64 := by omega

/-- The bytes of a character come before those of a greater one, whatever follows. -/
theorem encodeChar_append_lt {c d : Char} (h : c < d) (x y : Bytes) :
    String.utf8EncodeChar c ++ x < String.utf8EncodeChar d ++ y := by
  have hlt : c.val.toNat < d.val.toNat := h
  have hbound : d.val.toNat < 0x110000 := by
    have := toNat_val_bounds d
    omega
  rw [String.utf8EncodeChar, String.utf8EncodeChar]
  generalize c.val.toNat = m at hlt ⊢
  generalize d.val.toNat = n at hlt hbound ⊢
  have hm : m / 262144 < 8 := by omega
  have hn : n / 262144 < 8 := by omega
  have hfirst := digits_lt hlt
  have hsecond := @digits_lt (m / 64) (n / 64)
  have hthird := @digits_lt (m / 64 / 64) (n / 64 / 64)
  rw [Nat.div_div_eq_div_mul, Nat.div_div_eq_div_mul] at hsecond hthird
  rw [Nat.div_div_eq_div_mul, Nat.div_div_eq_div_mul] at hthird
  -- the first bytes tell sequences of different lengths apart, and those of one length are
  -- compared digit by digit
  split_ifs <;>
    simp (disch := omega) only [List.cons_append, List.cons_lt_cons_iff, ofNat_lt_ofNat_iff,
      ofNat_eq_ofNat_iff, Nat.mod_eq_of_lt hm, Nat.mod_eq_of_lt hn] <;>
    omega

/-- Texts compare as their bytes do. -/
theorem encode_lt_encode {s t : String} (h : s < t) : encode s < encode t := by
  have hlists : ∀ l l' : List Char, l < l' →
      l.flatMap String.utf8EncodeChar < l'.flatMap String.utf8EncodeChar := by
    intro l
    induction l with
    | nil =>
      intro l' hl
      cases l' with
      | nil => exact absurd hl (List.not_lt_nil _)
      | cons d l' =>
        obtain ⟨b, tail, hbytes, -⟩ := lead_encode d []
        rw [List.flatMap_cons, hbytes]
        exact List.nil_lt_cons _ _
    | cons c l ih =>
      intro l' hl
      cases l' with
      | nil => exact absurd hl (List.not_lt_nil _)
      | cons d l' =>
        rw [List.flatMap_cons, List.flatMap_cons]
        rcases List.cons_lt_cons_iff.1 hl with hcd | ⟨rfl, htail⟩
        · exact encodeChar_append_lt hcd _ _
        · exact List.append_left_lt (ih l' htail)
  exact hlists _ _ h

end Coordination.Text.Utf8
