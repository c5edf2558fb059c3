import Coordination.Proofs.Path.Segments

/-!
# Paths below paths

A valid path lies below another if it continues that path with a slash and a relative text.
Every valid path but the root has a parent, from which one name leads to it, and what lies
above a path is its parent and what lies above the parent. Statements about all valid paths
can therefore be proved from the root down.
-/

namespace Coordination.Path

/-- Whether a path is a proper continuation of another one. -/
def Below (ancestor path : String) : Prop :=
  path ≠ root ∧ startsWith (childStart ancestor) path = true

instance (ancestor path : String) : Decidable (Below ancestor path) :=
  inferInstanceAs (Decidable (_ ∧ _))

theorem isValid_root : isValid root = true := by decide

theorem childStart_root : childStart root = "/" := if_pos rfl

theorem childStart_of_ne {p : String} (h : p ≠ root) : childStart p = p ++ "/" := if_neg h

/-- The text before the slash that a child of a path starts with. -/
def stem (p : String) : String := if p = root then "" else p

theorem childStart_eq_stem (p : String) : childStart p = stem p ++ "/" := by
  rw [childStart, stem]
  split
  · decide
  · rfl

theorem isValid_ne_empty {p : String} (h : isValid p = true) : p ≠ "" := by
  rintro rfl
  exact absurd h (by decide)

theorem stem_injective {p q : String} (hp : isValid p = true) (hq : isValid q = true)
    (h : stem p = stem q) : p = q := by
  rw [stem, stem] at h
  split at h <;> split at h
  · rename_i hp' hq'
    rw [hp', hq']
  · exact absurd h.symm (isValid_ne_empty hq)
  · exact absurd h (isValid_ne_empty hp)
  · exact h

theorem toList_childStart_append (p r : String) :
    (childStart p ++ r).toList = (stem p).toList ++ '/' :: r.toList := by
  rw [childStart_eq_stem, toList_cut]

theorem startsWith_append (a r : String) : startsWith a (a ++ r) = true := by
  rw [startsWith_iff, String.toList_append]
  exact List.prefix_append _ _

theorem exists_append_of_startsWith {a s : String} (h : startsWith a s = true) :
    ∃ r, s = a ++ r := by
  obtain ⟨rest, hrest⟩ := startsWith_iff.1 h
  refine ⟨String.ofList rest, String.toList_injective ?_⟩
  rw [String.toList_append, String.toList_ofList, hrest]

theorem childStart_append_ne_root (p : String) {r : String} (hr : r ≠ "") :
    childStart p ++ r ≠ root := by
  intro h
  have hlen := congrArg (fun s : String => s.toList.length) h
  simp only [toList_childStart_append, toList_root, List.length_append, List.length_cons,
    List.length_nil] at hlen
  have hpos : r.toList ≠ [] := fun hnil => hr (String.toList_injective (hnil.trans rfl))
  have := List.length_pos_iff.2 hpos
  omega

theorem append_left_cancel {a r s : String} (h : a ++ r = a ++ s) : r = s := by
  have hlist := congrArg String.toList h
  rw [String.toList_append, String.toList_append] at hlist
  exact String.toList_injective (List.append_cancel_left hlist)

theorem below_append (p : String) {r : String} (hr : r ≠ "") : Below p (childStart p ++ r) :=
  ⟨childStart_append_ne_root p hr, startsWith_append _ _⟩

theorem isValid_append {p r : String} (hp : isValid p = true) (hr : IsRelative r) :
    isValid (childStart p ++ r) = true := by
  rcases isValid_iff.1 hp with rfl | ⟨a, ha, rfl⟩
  · exact isValid_iff.2 (Or.inr ⟨r, hr, by rw [childStart_root]⟩)
  · have hne : "/" ++ a ≠ root := childStart_append_ne_root root ha.ne_empty
    refine isValid_iff.2 (Or.inr ⟨a ++ "/" ++ r, isRelative_cut.2 ⟨ha, hr⟩, ?_⟩)
    rw [childStart_of_ne hne, String.append_assoc, String.append_assoc, String.append_assoc]

/-- What lies below a valid path continues it with a relative text. -/
theorem Below.exists_relative {p q : String} (hp : isValid p = true) (hq : isValid q = true)
    (h : Below p q) : ∃ r, IsRelative r ∧ q = childStart p ++ r := by
  obtain ⟨r, rfl⟩ := exists_append_of_startsWith h.2
  refine ⟨r, ?_, rfl⟩
  rcases isValid_iff.1 hq with hroot | ⟨b, hb, hqb⟩
  · exact absurd hroot h.1
  · rcases isValid_iff.1 hp with rfl | ⟨a, ha, rfl⟩
    · rw [childStart_root] at hqb
      rwa [append_left_cancel hqb]
    · have hne : "/" ++ a ≠ root := childStart_append_ne_root root ha.ne_empty
      rw [childStart_of_ne hne, String.append_assoc, String.append_assoc] at hqb
      have hb' : a ++ "/" ++ r = b := by
        rw [String.append_assoc]
        exact append_left_cancel hqb
      rw [← hb', isRelative_cut] at hb
      exact hb.2

theorem below_trans {a b c : String} (hab : Below a b) (hbc : Below b c) : Below a c :=
  ⟨hbc.1, startsWith_trans hab.2 (startsWith_trans (startsWith_childStart b) hbc.2)⟩

theorem not_below_self (p : String) : ¬ Below p p := by
  rintro ⟨hroot, hstart⟩
  rw [not_startsWith_childStart_self hroot] at hstart
  cases hstart

theorem Below.ne {p q : String} (h : Below p q) : p ≠ q := by
  rintro rfl
  exact not_below_self p h

/-! ## Paths behind a path -/

theorem ne_root_cut {p r : String} (hroot : p ≠ root) (hr : r ≠ "") : p ++ "/" ++ r ≠ root := by
  rw [← childStart_of_ne hroot]
  exact childStart_append_ne_root p hr

theorem below_cut {p r : String} (hroot : p ≠ root) (hr : r ≠ "") : Below p (p ++ "/" ++ r) := by
  rw [← childStart_of_ne hroot]
  exact below_append p hr

theorem isValid_cut {p r : String} (hp : isValid p = true) (hroot : p ≠ root)
    (hr : IsRelative r) : isValid (p ++ "/" ++ r) = true := by
  rw [← childStart_of_ne hroot]
  exact isValid_append hp hr

/-- What follows the slash behind a path of a valid path is relative. -/
theorem isRelative_of_isValid_cut {p r : String} (hp : isValid p = true) (hroot : p ≠ root)
    (h : isValid (p ++ "/" ++ r) = true) : IsRelative r := by
  rcases isValid_iff.1 hp with heq | ⟨a, ha, rfl⟩
  · exact absurd heq hroot
  · have hcut : "/" ++ a ++ "/" ++ r = "/" ++ (a ++ "/" ++ r) := by
      rw [String.append_assoc, String.append_assoc, String.append_assoc]
    rw [hcut] at h
    rcases isValid_iff.1 h with heq | ⟨b, hb, heq⟩
    · have hempty : a ++ "/" ++ r = "" := append_left_cancel heq
      simp at hempty
    · rw [← append_left_cancel heq, isRelative_cut] at hb
      exact hb.2

theorem Below.exists_cut {p q : String} (hp : isValid p = true) (hroot : p ≠ root)
    (hq : isValid q = true) (h : Below p q) : ∃ r, IsRelative r ∧ q = p ++ "/" ++ r := by
  rw [← childStart_of_ne hroot]
  exact h.exists_relative hp hq

/-- Behind a common path, being below is to continue with a slash. -/
theorem below_cut_iff {p x y : String} (hroot : p ≠ root) (hx : x ≠ "") (hy : y ≠ "") :
    Below (p ++ "/" ++ x) (p ++ "/" ++ y) ↔ startsWith (x ++ "/") y = true := by
  rw [Below, and_iff_right (ne_root_cut hroot hy), childStart_of_ne (ne_root_cut hroot hx),
    String.append_assoc, startsWith_iff, startsWith_iff, String.toList_append,
    String.toList_append (s := p ++ "/") (t := y), List.prefix_append_right_inj]

theorem relativeTo?_cut {p r : String} (hroot : p ≠ root) :
    relativeTo? p (p ++ "/" ++ r) = some r := by
  have hafter (a b : String) : after? a (a ++ b) = some b := by
    rw [after?, if_pos (startsWith_append a b), String.toList_append,
      ← String.length_toList, List.drop_left, String.ofList_toList]
  rw [relativeTo?, String.append_assoc, hafter, Option.bind_some, if_neg hroot, hafter]

/-- The first segment of a text. -/
def first (r : String) : String := String.ofList (r.toList.takeWhile (· ≠ '/'))

theorem takeWhile_of_no_slash {n : List Char} (hn : '/' ∉ n) (rest : List Char) :
    (n ++ rest).takeWhile (· ≠ '/') = n ++ rest.takeWhile (· ≠ '/') := by
  refine List.takeWhile_append_of_pos fun c hc => ?_
  rw [decide_eq_true_eq]
  rintro rfl
  exact hn hc

theorem first_name {n : String} (hn : '/' ∉ n.toList) : first n = n := by
  have htake := takeWhile_of_no_slash hn []
  rw [List.append_nil, List.takeWhile_nil, List.append_nil] at htake
  rw [first, htake, String.ofList_toList]

theorem first_cut {n : String} (hn : '/' ∉ n.toList) (r : String) :
    first (n ++ "/" ++ r) = n := by
  have htake := takeWhile_of_no_slash hn ('/' :: r.toList)
  rw [List.takeWhile_cons_of_neg (by simp), List.append_nil] at htake
  rw [first, toList_cut, htake, String.ofList_toList]

/-- A relative text is its first segment or continues it with a slash. -/
theorem IsRelative.first {r : String} (h : IsRelative r) :
    IsName (Path.first r) ∧ (r = Path.first r ∨ startsWith (Path.first r ++ "/") r = true) := by
  rcases h.exists_first with hname | ⟨n, rest, hname, _, rfl⟩
  · rw [first_name hname.2]
    exact ⟨hname, Or.inl rfl⟩
  · rw [first_cut hname.2]
    exact ⟨hname, Or.inr (startsWith_append _ _)⟩

theorem first_of_startsWith {n r : String} (hn : IsName n)
    (h : startsWith (n ++ "/") r = true) : first r = n := by
  obtain ⟨rest, rfl⟩ := exists_append_of_startsWith h
  exact first_cut hn.2 rest

theorem below_child {p n : String} (hp : p ≠ root) (hn : IsName n) : Below p (p ++ "/" ++ n) :=
  below_cut hp hn.1

theorem isValid_child {p n : String} (hp : isValid p = true) (hroot : p ≠ root)
    (hn : IsName n) : isValid (p ++ "/" ++ n) = true := isValid_cut hp hroot hn.isRelative

theorem append_lt_append {a x y : String} (h : x < y) : a ++ x < a ++ y := by
  rw [String.lt_iff, String.toList_append, String.toList_append]
  exact List.append_left_lt (String.lt_iff.1 h)

/-- Behind a common path ascending names ascend. -/
theorem pairwise_cut {names : List String} (h : names.Pairwise (· < ·)) (d : String) :
    (names.map (d ++ "/" ++ ·)).Pairwise (· < ·) :=
  List.pairwise_map.2 (h.imp append_lt_append)

theorem lt_of_append_lt_append {a x y : String} (h : a ++ x < a ++ y) : x < y := by
  rw [String.lt_iff, String.toList_append, String.toList_append] at h
  rw [String.lt_iff]
  generalize a.toList = start at h
  induction start with
  | nil => exact h
  | cons c rest ih =>
    rcases List.cons_lt_cons_iff.1 h with hlt | ⟨-, hrest⟩
    · exact absurd hlt (Nat.lt_irrefl _)
    · exact ih hrest

/-! ## Parents -/

theorem beforeLastSlash_of_not_mem {s : List Char} (h : '/' ∉ s) : beforeLastSlash s = none := by
  induction s with
  | nil => rfl
  | cons c s ih =>
    have hc : c ≠ '/' := fun hc => h (hc ▸ List.mem_cons_self)
    have hs : '/' ∉ s := fun hs => h (List.mem_cons_of_mem _ hs)
    rw [beforeLastSlash, ih hs]
    exact if_neg hc

theorem beforeLastSlash_cut (a : List Char) {b : List Char} (hb : '/' ∉ b) :
    beforeLastSlash (a ++ '/' :: b) = some a := by
  induction a with
  | nil => rw [List.nil_append, beforeLastSlash, beforeLastSlash_of_not_mem hb]; rfl
  | cons c a ih => rw [List.cons_append, beforeLastSlash, ih]

theorem parent?_root : parent? root = none := if_pos rfl

/-- The parent of what one name leads to. -/
theorem parent?_append {p n : String} (hp : isValid p = true) (hn : IsName n) :
    parent? (childStart p ++ n) = some p := by
  rw [parent?, if_neg (childStart_append_ne_root p hn.1), toList_childStart_append,
    beforeLastSlash_cut _ hn.2, stem]
  by_cases hroot : p = root
  · subst hroot
    rfl
  · rw [if_neg hroot]
    cases hchars : p.toList with
    | nil => exact absurd (String.toList_injective (hchars.trans rfl)) (isValid_ne_empty hp)
    | cons c rest =>
      show some (String.ofList (c :: rest)) = some p
      rw [← hchars, String.ofList_toList]

theorem parent?_child {p n : String} (hp : isValid p = true) (hroot : p ≠ root)
    (hn : IsName n) : parent? (p ++ "/" ++ n) = some p := by
  rw [← childStart_of_ne hroot]
  exact parent?_append hp hn

/-- What follows the slash behind the path is a name if it has no slash, and then the path is
that of a child. -/
theorem parent?_of_isValid_cut {p n : String} (hp : isValid p = true) (hroot : p ≠ root)
    (h : isValid (p ++ "/" ++ n) = true) (hn : '/' ∉ n.toList) :
    parent? (p ++ "/" ++ n) = some p :=
  parent?_child hp hroot ⟨(isRelative_of_isValid_cut hp hroot h).ne_empty, hn⟩

/-- The last name of what one name leads to. -/
theorem name_child {p n : String} (hn : IsName n) : name (p ++ "/" ++ n) = n := by
  have hslash : ('/' ∉ n.toList.reverse) := fun h => hn.2 (List.mem_reverse.1 h)
  have htake : ((p ++ "/" ++ n).toList.reverse.takeWhile (· ≠ '/')) = n.toList.reverse := by
    rw [toList_cut, List.reverse_append, List.reverse_cons, List.append_assoc,
      takeWhile_of_no_slash hslash]
    exact List.append_nil _
  rw [name, afterLastSlash, htake, List.reverse_reverse, String.ofList_toList]

/-- Every valid path but the root is a name below a valid path. -/
theorem exists_parent {q : String} (hq : isValid q = true) (hroot : q ≠ root) :
    ∃ p n, isValid p = true ∧ IsName n ∧ q = childStart p ++ n ∧ parent? q = some p := by
  rcases isValid_iff.1 hq with h | ⟨b, hb, rfl⟩
  · exact absurd h hroot
  · rcases hb.exists_last with hname | ⟨rest, n, hname, hrest, rfl⟩
    · have heq : "/" ++ b = childStart root ++ b := by rw [childStart_root]
      exact ⟨root, b, isValid_root, hname, heq, heq ▸ parent?_append isValid_root hname⟩
    · have hvalid : isValid ("/" ++ rest) = true := isValid_iff.2 (Or.inr ⟨rest, hrest, rfl⟩)
      have hne : "/" ++ rest ≠ root := childStart_append_ne_root root hrest.ne_empty
      have heq : "/" ++ (rest ++ "/" ++ n) = childStart ("/" ++ rest) ++ n := by
        rw [childStart_of_ne hne, String.append_assoc, String.append_assoc, String.append_assoc]
      exact ⟨"/" ++ rest, n, hvalid, hname, heq, heq ▸ parent?_append hvalid hname⟩

theorem ne_root_of_parent {p q : String} (h : parent? q = some p) : q ≠ root := by
  rintro rfl
  rw [parent?_root] at h
  cases h

/-- The parent of a valid path is valid, and one name leads from it to the path. -/
theorem exists_name_of_parent {p q : String} (hq : isValid q = true)
    (h : parent? q = some p) : isValid p = true ∧ ∃ n, IsName n ∧ q = childStart p ++ n := by
  obtain ⟨p', n, hp', hn, heq, hparent⟩ := exists_parent hq (ne_root_of_parent h)
  have hpp : p' = p := Option.some.inj (hparent.symm.trans h)
  subst hpp
  exact ⟨hp', n, hn, heq⟩

theorem below_of_parent {p q : String} (hq : isValid q = true) (h : parent? q = some p) :
    Below p q := by
  obtain ⟨_, n, hn, rfl⟩ := exists_name_of_parent hq h
  exact below_append p hn.1

/-- What lies above a path is its parent and what lies above the parent. -/
theorem below_iff_of_parent {a p q : String} (ha : isValid a = true) (hq : isValid q = true)
    (h : parent? q = some p) : Below a q ↔ a = p ∨ Below a p := by
  have hpq := below_of_parent hq h
  obtain ⟨hp, n, hn, hqn⟩ := exists_name_of_parent hq h
  constructor
  · intro haq
    obtain ⟨r, hr, hqr⟩ := haq.exists_relative ha hq
    have hlist := congrArg String.toList (hqn.symm.trans hqr)
    rcases hr.exists_last with hname | ⟨rest, m, hm, hrest, rfl⟩
    · rw [toList_childStart_append, toList_childStart_append] at hlist
      have hstem := (Text.last_part_unique hn.2 hname.2 hlist).1
      exact Or.inl (stem_injective hp ha (String.toList_injective hstem)).symm
    · rw [toList_childStart_append, toList_childStart_append, toList_cut, ← List.cons_append,
        ← List.append_assoc] at hlist
      have hstem := (Text.last_part_unique hn.2 hm.2 hlist).1
      rw [← toList_childStart_append] at hstem
      have hp' : stem p = childStart a ++ rest := String.toList_injective hstem
      rw [stem] at hp'
      split at hp'
      · exact absurd hp'.symm fun hempty => by
          have hlen := congrArg (fun s : String => s.toList.length) hempty
          simp only [toList_childStart_append, List.length_append, List.length_cons] at hlen
          have : "".toList.length = 0 := rfl
          omega
      · exact Or.inr (hp' ▸ below_append a hrest.ne_empty)
  · rintro (rfl | hap)
    · exact hpq
    · exact below_trans hap hpq

/-- Nothing lies between a path and its parent. -/
theorem not_below_of_parent {a p q : String} (ha : isValid a = true) (hq : isValid q = true)
    (h : parent? q = some p) (hpa : Below p a) : ¬ Below a q := by
  intro haq
  rcases (below_iff_of_parent ha hq h).1 haq with rfl | hap
  · exact not_below_self a hpa
  · exact not_below_self p (below_trans hpa hap)

/-- Below a path there is a child of it on the way. -/
theorem Below.exists_child {p q : String} (hp : isValid p = true) (hq : isValid q = true)
    (h : Below p q) :
    ∃ c, isValid c = true ∧ parent? c = some p ∧ (c = q ∨ Below c q) := by
  obtain ⟨r, hr, rfl⟩ := h.exists_relative hp hq
  rcases hr.exists_first with hname | ⟨n, rest, hname, hrest, rfl⟩
  · exact ⟨_, hq, parent?_append hp hname, Or.inl rfl⟩
  · have hc := isValid_append hp hname.isRelative
    refine ⟨_, hc, parent?_append hp hname, Or.inr ?_⟩
    have hne := childStart_append_ne_root p hname.1
    have heq : childStart p ++ (n ++ "/" ++ rest) = childStart (childStart p ++ n) ++ rest := by
      rw [childStart_of_ne hne, String.append_assoc, String.append_assoc, String.append_assoc]
    rw [heq]
    exact below_append _ hrest.ne_empty

/-- What holds of the root and of every path whose parent it holds of, holds of all valid
paths. -/
theorem valid_induction {P : String → Prop} (base : P root)
    (step : ∀ p q, isValid q = true → parent? q = some p → P p → P q) {q : String}
    (hq : isValid q = true) : P q := by
  generalize hlen : q.length = len
  induction len using Nat.strongRecOn generalizing q with
  | ind len ih =>
    by_cases hroot : q = root
    · exact hroot ▸ base
    · obtain ⟨p, n, hp, hn, heq, hparent⟩ := exists_parent hq hroot
      exact step p q hq hparent (ih p.length (hlen ▸ length_parent_lt hparent) hp rfl)

/-- Two valid paths above one path are equal, or one of them is above the other. -/
theorem comparable_of_below {a b q : String} (ha : isValid a = true) (hb : isValid b = true)
    (hq : isValid q = true) (haq : Below a q) (hbq : Below b q) :
    a = b ∨ Below a b ∨ Below b a := by
  refine valid_induction (P := fun q => Below a q → Below b q → a = b ∨ Below a b ∨ Below b a)
    ?_ ?_ hq haq hbq
  · intro haroot
    exact absurd rfl haroot.1
  · intro p q hq hparent ih haq hbq
    rcases (below_iff_of_parent ha hq hparent).1 haq with rfl | hap
    · rcases (below_iff_of_parent hb hq hparent).1 hbq with rfl | hbp
      · exact Or.inl rfl
      · exact Or.inr (Or.inr hbp)
    · rcases (below_iff_of_parent hb hq hparent).1 hbq with rfl | hbp
      · exact Or.inr (Or.inl hap)
      · exact ih hap hbp

/-- What starts with a path and a slash lies below the path. -/
theorem below_of_startsWith {d p : String} (hroot : d ≠ root) (hempty : d ≠ "")
    (h : startsWith (d ++ "/") p = true) : Below d p := by
  refine ⟨?_, by rw [childStart_of_ne hroot]; exact h⟩
  rintro rfl
  have hlen := (startsWith_iff.1 h).length_le
  have hone : "/".toList.length = 1 := rfl
  have hroot : root.toList.length = 1 := rfl
  rw [String.toList_append, List.length_append] at hlen
  have hzero : d.toList.length = 0 := by omega
  exact hempty (String.toList_injective (List.length_eq_zero_iff.1 hzero))

/-! ## Ancestors -/

theorem ancestors_root : ancestors root = [] := by
  rw [ancestors, parent?_root]

theorem ancestors_of_parent {p q : String} (h : parent? q = some p) :
    ancestors q = p :: ancestors p := by
  rw [ancestors, h]

/-- The ancestors of a valid path are the valid paths that it lies below. -/
theorem mem_ancestors_iff {a q : String} (hq : isValid q = true) :
    a ∈ ancestors q ↔ isValid a = true ∧ Below a q := by
  refine valid_induction (P := fun q => a ∈ ancestors q ↔ isValid a = true ∧ Below a q)
    ?_ ?_ hq
  · rw [ancestors_root]
    constructor
    · intro h
      cases h
    · rintro ⟨_, hbelow⟩
      exact absurd rfl hbelow.1
  · intro p q hq hparent ih
    rw [ancestors_of_parent hparent, List.mem_cons, ih]
    constructor
    · rintro (rfl | ⟨ha, hbelow⟩)
      · exact ⟨(exists_name_of_parent hq hparent).1, below_of_parent hq hparent⟩
      · exact ⟨ha, (below_iff_of_parent ha hq hparent).2 (Or.inr hbelow)⟩
    · rintro ⟨ha, hbelow⟩
      rcases (below_iff_of_parent ha hq hparent).1 hbelow with h | h
      · exact Or.inl h
      · exact Or.inr ⟨ha, h⟩

end Coordination.Path
