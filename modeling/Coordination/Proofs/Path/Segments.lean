import Coordination.Proofs.Text.Cutting
import Coordination.Tree.Operations

/-!
# Segments of paths

A path is read through its segments, the texts between its slashes. Cutting at a slash
splits the segments in two, and a text is determined by its segments. The valid paths are
the root and the texts that start with a slash and go on with nonempty segments only.
-/

namespace Coordination

namespace Path

/-- The texts between the slashes of a text. -/
def segments (s : String) : List String := (Text.splitAll '/' s.toList).map String.ofList

/-- A text without slashes that is not empty. -/
def IsName (n : String) : Prop := n ≠ "" ∧ '/' ∉ n.toList

instance (n : String) : Decidable (IsName n) := inferInstanceAs (Decidable (_ ∧ _))

/-- What may follow the slash behind a valid path: segments that are not empty. -/
def IsRelative (r : String) : Prop := ∀ n ∈ segments r, n ≠ ""

instance (r : String) : Decidable (IsRelative r) := List.decidableBAll _ _

theorem toList_slash : "/".toList = ['/'] := rfl

theorem toList_root : root.toList = ['/'] := rfl

theorem toList_cut (a b : String) : (a ++ "/" ++ b).toList = a.toList ++ '/' :: b.toList := by
  rw [String.toList_append, String.toList_append, toList_slash, List.append_assoc]
  rfl

theorem segments_cut (a b : String) : segments (a ++ "/" ++ b) = segments a ++ segments b := by
  rw [segments, toList_cut, Text.splitAll_append, List.map_append]
  rfl

theorem segments_of_no_slash {n : String} (h : '/' ∉ n.toList) : segments n = [n] := by
  rw [segments, Text.splitAll_of_not_mem h, List.map_singleton, String.ofList_toList]

theorem segments_ne_nil (s : String) : segments s ≠ [] := by
  intro h
  exact Text.splitAll_ne_nil '/' s.toList (List.map_eq_nil_iff.1 h)

theorem IsName.isRelative {n : String} (h : IsName n) : IsRelative n := by
  intro m hm
  rw [segments_of_no_slash h.2, List.mem_singleton] at hm
  exact hm ▸ h.1

theorem isRelative_cut {a b : String} :
    IsRelative (a ++ "/" ++ b) ↔ IsRelative a ∧ IsRelative b := by
  simp only [IsRelative, segments_cut, List.mem_append]
  constructor
  · intro h
    exact ⟨fun n hn => h n (Or.inl hn), fun n hn => h n (Or.inr hn)⟩
  · rintro ⟨ha, hb⟩ n (hn | hn)
    · exact ha n hn
    · exact hb n hn

theorem IsRelative.ne_empty {r : String} (h : IsRelative r) : r ≠ "" := by
  rintro rfl
  exact h "" (by decide) rfl

/-- A relative text starts with a name. -/
theorem IsRelative.exists_first {r : String} (h : IsRelative r) :
    IsName r ∨ ∃ n rest, IsName n ∧ IsRelative rest ∧ r = n ++ "/" ++ rest := by
  rcases Text.exists_first_part '/' r.toList with hr | ⟨part, rest, hpart, hr⟩
  · exact Or.inl ⟨h.ne_empty, hr⟩
  · have heq : r = String.ofList part ++ "/" ++ String.ofList rest := by
      apply String.toList_injective
      rw [toList_cut, String.toList_ofList, String.toList_ofList, hr]
    rw [heq, isRelative_cut] at h
    have hname : '/' ∉ (String.ofList part).toList := by rwa [String.toList_ofList]
    exact Or.inr ⟨_, _, ⟨h.1.ne_empty, hname⟩, h.2, heq⟩

/-- A relative text ends with a name. -/
theorem IsRelative.exists_last {r : String} (h : IsRelative r) :
    IsName r ∨ ∃ rest n, IsName n ∧ IsRelative rest ∧ r = rest ++ "/" ++ n := by
  rcases Text.exists_last_part '/' r.toList with hr | ⟨rest, part, hpart, hr⟩
  · exact Or.inl ⟨h.ne_empty, hr⟩
  · have heq : r = String.ofList rest ++ "/" ++ String.ofList part := by
      apply String.toList_injective
      rw [toList_cut, String.toList_ofList, String.toList_ofList, hr]
    rw [heq, isRelative_cut] at h
    have hname : '/' ∉ (String.ofList part).toList := by rwa [String.toList_ofList]
    exact Or.inr ⟨_, _, ⟨h.2.ne_empty, hname⟩, h.1, heq⟩

/-! ## Valid paths -/

/-- All parts but the first are nonempty exactly if the text neither ends with a slash nor
has two slashes side by side. -/
theorem parts_ne_nil_iff (s : List Char) :
    (∀ part ∈ (Text.splitAll '/' s).tail, part ≠ []) ↔
      s.getLast? ≠ some '/' ∧ hasEmptyName s = false := by
  induction s with
  | nil => simp [Text.splitAll, hasEmptyName]
  | cons x s ih =>
    by_cases hx : x = '/'
    · subst hx
      rw [Text.splitAll_cons_self, List.tail_cons]
      cases s with
      | nil => simp [Text.splitAll, hasEmptyName]
      | cons y s =>
        by_cases hy : y = '/'
        · subst hy
          simp [Text.splitAll_cons_self, hasEmptyName]
        · obtain ⟨part, parts, _, hys⟩ := Text.splitAll_cons_of_ne hy s
          rw [hys, List.tail_cons] at ih
          have hname : hasEmptyName ('/' :: y :: s) = hasEmptyName (y :: s) := by
            rw [hasEmptyName]
            intro rest _ hrest
            exact hy (List.cons.inj hrest).1
          rw [hys, hname, List.getLast?_cons_cons, ← ih]
          simp
    · obtain ⟨part, parts, hs, hxs⟩ := Text.splitAll_cons_of_ne hx s
      rw [hs, List.tail_cons] at ih
      have hname : hasEmptyName (x :: s) = hasEmptyName s := by
        rw [hasEmptyName]
        intro rest hslash
        exact absurd hslash hx
      rw [hxs, List.tail_cons, ih, hname]
      cases s with
      | nil => simp [hx]
      | cons y s => rw [List.getLast?_cons_cons]

theorem isRelative_iff_parts {r : String} :
    IsRelative r ↔ ∀ part ∈ Text.splitAll '/' r.toList, part ≠ [] := by
  have hempty (part : List Char) : String.ofList part ≠ "" ↔ part ≠ [] :=
    not_congr String.ofList_inj
  constructor
  · intro h part hpart
    exact (hempty part).1 (h _ (List.mem_map_of_mem hpart))
  · intro h n hn
    obtain ⟨part, hpart, rfl⟩ := List.mem_map.1 hn
    exact (hempty part).2 (h part hpart)

theorem isValid_iff {path : String} :
    isValid path = true ↔ path = root ∨ ∃ r, IsRelative r ∧ path = "/" ++ r := by
  rw [isValid]
  by_cases hroot : path = root
  · simp [hroot]
  · simp only [hroot, decide_false, Bool.false_or, false_or, Bool.and_eq_true,
      decide_eq_true_eq, Bool.not_eq_true', and_assoc, ← parts_ne_nil_iff]
    constructor
    · rintro ⟨hhead, htail⟩
      obtain ⟨s, hs⟩ := List.head?_eq_some_iff.1 hhead
      rw [hs, Text.splitAll_cons_self, List.tail_cons] at htail
      refine ⟨String.ofList s, ?_, ?_⟩
      · rw [isRelative_iff_parts, String.toList_ofList]
        exact htail
      · apply String.toList_injective
        rw [String.toList_append, toList_slash, String.toList_ofList, hs]
        rfl
    · rintro ⟨r, hr, rfl⟩
      rw [String.toList_append, toList_slash, List.singleton_append,
        Text.splitAll_cons_self, List.tail_cons]
      exact ⟨rfl, isRelative_iff_parts.1 hr⟩

/-- A path of at least one segment behind its first slash is valid if all of them are
nonempty. -/
theorem isValid_of_segments {path n : String} {names : List String}
    (h : segments path = "" :: n :: names) (hnames : ∀ m ∈ n :: names, m ≠ "") :
    isValid path = true := by
  rcases Text.exists_first_part '/' path.toList with hpath | ⟨part, rest, hpart, hpath⟩
  · rw [segments_of_no_slash hpath] at h
    cases h
  · have heq : path = String.ofList part ++ "/" ++ String.ofList rest := by
      apply String.toList_injective
      rw [toList_cut, String.toList_ofList, String.toList_ofList, hpath]
    have hname : '/' ∉ (String.ofList part).toList := by rwa [String.toList_ofList]
    rw [heq, segments_cut, segments_of_no_slash hname, List.singleton_append,
      List.cons.injEq] at h
    obtain ⟨hempty, hrest⟩ := h
    rw [hempty, String.empty_append] at heq
    refine isValid_iff.2 (Or.inr ⟨String.ofList rest, fun m hm => ?_, heq⟩)
    exact hnames m (hrest ▸ hm)

end Path

end Coordination
