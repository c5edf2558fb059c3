import Coordination.Namespace.Identifier
import Coordination.Proofs.Text.Cutting

/-!
# Pairs around a separator

A text is read as a pair exactly if the separator stands in it once. So two parts that are written
with the separator between them are read back as they are if neither of them contains it, and are
not read as any pair otherwise.
-/

namespace Coordination.Text

variable {c : Char} {s a b : String}

/-- The parts of a pair are the texts before and after the only separator. -/
theorem splitPair?_eq_some_iff : splitPair? c s = some (a, b) ↔
    s.toList = a.toList ++ c :: b.toList ∧ c ∉ a.toList ∧ c ∉ b.toList := by
  constructor
  · intro h
    rw [splitPair?] at h
    split at h
    · rename_i first second hcut
      split at h
      · cases h
      · rename_i hsecond
        cases h
        rw [String.toList_ofList, String.toList_ofList]
        obtain ⟨hs, hfirst⟩ := splitFirst_eq_some_iff.1 hcut
        exact ⟨hs, hfirst, hsecond⟩
    · cases h
  · rintro ⟨hs, ha, hb⟩
    rw [splitPair?, splitFirst_eq_some_iff.2 ⟨hs, ha⟩]
    simp only [if_neg hb, String.ofList_toList]

/-- What is written with a separator between two parts, by characters. -/
theorem eq_cut_iff (c : Char) {sep : String} (hsep : sep.toList = [c]) :
    s = a ++ sep ++ b ↔ s.toList = a.toList ++ c :: b.toList := by
  rw [← String.toList_inj, String.toList_append, String.toList_append, hsep, List.append_assoc,
    List.singleton_append]

theorem splitPair?_eq_some_iff_cut {sep : String} (hsep : sep.toList = [c]) :
    splitPair? c s = some (a, b) ↔ s = a ++ sep ++ b ∧ c ∉ a.toList ∧ c ∉ b.toList := by
  rw [splitPair?_eq_some_iff, eq_cut_iff c hsep]

/-- Two parts with a separator between them are read as a pair exactly if they have none of
their own, and then as the pair that they are. -/
theorem splitPair?_of_parts (hs : s.toList = a.toList ++ c :: b.toList) :
    splitPair? c s = if c ∈ a.toList ∨ c ∈ b.toList then none else some (a, b) := by
  by_cases hplain : c ∈ a.toList ∨ c ∈ b.toList
  · rw [if_pos hplain]
    refine Option.eq_none_iff_forall_ne_some.2 fun pair hpair => ?_
    obtain ⟨hcut, hfirst, hsecond⟩ := splitPair?_eq_some_iff.1 hpair
    -- the text has the separator once if it is a pair, and again in one of the two parts
    have hcount : s.toList.count c = 1 := by
      rw [hcut, List.count_append, List.count_cons_self, List.count_eq_zero.2 hfirst,
        List.count_eq_zero.2 hsecond]
    rw [hs, List.count_append, List.count_cons_self] at hcount
    rcases hplain with ha | hb
    · have hpos := List.count_pos_iff.2 ha
      omega
    · have hpos := List.count_pos_iff.2 hb
      omega
  · rw [if_neg hplain]
    exact splitPair?_eq_some_iff.2 ⟨hs, fun ha => hplain (Or.inl ha), fun hb => hplain (Or.inr hb)⟩

end Coordination.Text
