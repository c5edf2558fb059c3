import Coordination.Proofs.Template.Letters
import Coordination.Proofs.Text.Cutting
import Mathlib.Data.List.Chain

/-!
# What a template may be written as

A source is a template exactly if it can be cut into texts and actions: no text holds two
opening braces or stands next to another text, a text in front of an action does not end with
an opening brace, and an action is a path with blanks around it between double braces. There
is one such cut at most, and its pieces are the segments that parsing gives. A template
printed without blanks in its actions is read back unchanged.
-/

namespace Coordination

namespace Segment

variable {g : Segment} {s before action rest w : List Char} {path : List String}
  {segments : List Segment} {pieces : List (Segment × List Char)}

/-! ## Paths -/

/-- A path as it is written: its names, each behind a point. -/
def dotted (path : List String) : List Char := path.flatMap fun name => '.' :: name.toList

theorem dotted_eq (path : List String) :
    dotted path = (path.map String.toList).flatMap ('.' :: ·) := by
  rw [dotted, List.flatMap_map]

/-- The characters of names lie between the digit zero and the letter z. -/
theorem isNameChar_bounds {c : Char} (h : isNameChar c = true) :
    48 ≤ c.toNat ∧ c.toNat ≤ 122 := by
  rw [isNameChar, Bool.or_eq_true, decide_eq_true_eq] at h
  rcases h with h | rfl
  · have hranges : c.isAlphanum = (decide (c.val ≥ 65 ∧ c.val ≤ 90) ||
        decide (c.val ≥ 97) && decide (c.val ≤ 122) ||
        decide (c.val ≥ 48) && decide (c.val ≤ 57)) := rfl
    simp only [hranges, Bool.or_eq_true, Bool.and_eq_true, decide_eq_true_eq, ge_iff_le,
      UInt32.le_iff_toNat_le, UInt32.reduceToNat] at h
    show 48 ≤ c.val.toNat ∧ c.val.toNat ≤ 122
    omega
  · decide

theorem ne_of_isNameChar {c x : Char} (h : isNameChar c = true)
    (hx : x.toNat < 48 ∨ 122 < x.toNat) : c ≠ x := by
  rintro rfl
  have := isNameChar_bounds h
  omega

theorem isBlank_of_isNameChar {c : Char} (h : isNameChar c = true) : Text.isBlank c = false := by
  have hbounds := isNameChar_bounds h
  simp only [Text.isBlank, Bool.or_eq_false_iff, Bool.and_eq_false_iff, decide_eq_false_iff_not]
  omega

theorem isName_iff : isName s = true ↔ s ≠ [] ∧ ∀ c ∈ s, isNameChar c = true := by
  rw [isName, Bool.and_eq_true, decide_eq_true_eq, List.all_eq_true]

theorem not_mem_of_isName (h : isName s = true) {x : Char} (hx : x.toNat < 48 ∨ 122 < x.toNat) :
    x ∉ s := fun hmem => ne_of_isNameChar ((isName_iff.1 h).2 x hmem) hx rfl

/-- A list of field names that is not empty. -/
structure IsPath (path : List String) : Prop where
  nonempty : path ≠ []
  names : ∀ name ∈ path, isName name.toList = true

/-- A character of a path is a point or belongs to a name. -/
theorem IsPath.mem_dotted (h : IsPath path) {c : Char} (hc : c ∈ dotted path) :
    c = '.' ∨ isNameChar c = true := by
  obtain ⟨name, hname, hc⟩ := List.mem_flatMap.1 hc
  rcases List.mem_cons.1 hc with rfl | hc
  · exact Or.inl rfl
  · exact Or.inr ((isName_iff.1 (h.names name hname)).2 c hc)

theorem IsPath.brace_not_mem_dotted (h : IsPath path) : '\x7d' ∉ dotted path := fun hc => by
  rcases h.mem_dotted hc with hpoint | hname
  · exact absurd hpoint (by decide)
  · exact absurd hname (by decide)

theorem IsPath.trimmed (h : IsPath path) : Text.Trimmed (dotted path) := by
  have hblank : ∀ c ∈ dotted path, Text.isBlank c = false := fun c hc => by
    rcases h.mem_dotted hc with rfl | hname
    · decide
    · exact isBlank_of_isNameChar hname
  exact ⟨fun c hc => hblank c (List.mem_of_head? hc),
    fun c hc => hblank c (List.mem_of_getLast? hc)⟩

theorem IsPath.splitAll_dotted (h : IsPath path) :
    Text.splitAll '.' (dotted path) = [] :: path.map String.toList := by
  rw [dotted_eq]
  refine Text.splitAll_flatMap fun part hpart => ?_
  obtain ⟨name, hname, rfl⟩ := List.mem_map.1 hpart
  exact not_mem_of_isName (h.names name hname) (by decide)

theorem map_ofList_toList (path : List String) :
    (path.map String.toList).map String.ofList = path := by
  rw [List.map_map]
  exact (List.map_congr_left fun name _ => String.ofList_toList).trans (List.map_id path)

/-- An action is accepted exactly if it is a path, and it is read as this path. -/
theorem parsePath_eq_ok_iff :
    parsePath action = .ok path ↔ IsPath path ∧ action = dotted path := by
  constructor
  · intro h
    rw [parsePath.eq_def] at h
    split at h
    case h_2 => cases h
    case h_1 rest =>
      dsimp only at h
      split at h
      case isFalse => cases h
      case isTrue hnames =>
        cases h
        refine ⟨⟨fun hnil => ?_, fun name hname => ?_⟩, ?_⟩
        · exact Text.splitAll_ne_nil '.' rest (List.map_eq_nil_iff.1 hnil)
        · obtain ⟨part, hpart, rfl⟩ := List.mem_map.1 hname
          rw [String.toList_ofList]
          exact List.all_eq_true.1 hnames part hpart
        · rw [dotted, List.flatMap_map]
          simp only [String.toList_ofList]
          exact (Text.flatMap_splitAll '.' rest).symm
  · rintro ⟨hpath, rfl⟩
    obtain ⟨name, more, rfl⟩ := List.exists_cons_of_ne_nil hpath.nonempty
    have hsplit := hpath.splitAll_dotted
    rw [dotted, List.flatMap_cons, List.cons_append, Text.splitAll_cons_self] at hsplit
    have hparts := (List.cons.inj hsplit).2
    have hall : ((name :: more).map String.toList).all isName = true := by
      rw [List.all_eq_true]
      intro part hpart
      obtain ⟨n, hn, rfl⟩ := List.mem_map.1 hpart
      exact hpath.names n hn
    rw [dotted, List.flatMap_cons, List.cons_append, parsePath, hparts, if_pos hall,
      map_ofList_toList]

/-! ## One step of parsing -/

theorem opening_ne_nil : opening ≠ [] := List.cons_ne_nil _ _

theorem closing_ne_nil : closing ≠ [] := List.cons_ne_nil _ _

theorem ofText_of_ne_nil (h : s ≠ []) : ofText s = [.text (String.ofList s)] := if_neg h

/-- A source without opening braces is a text. -/
theorem parse_of_not_infix (h : ¬ opening <:+: s) : parse s = .ok (ofText s) := by
  rw [parse]
  split
  · rfl
  · rename_i hcut
    rw [Text.breakOn_eq_none_iff.2 h] at hcut
    cases hcut

/-- A source with opening braces is read from the first ones on. -/
theorem parse_of_breakOn {after : List Char}
    (h : Text.breakOn opening s = some (before, after)) :
    parse s = (match Text.breakOn closing after with
      | none => .error .unterminatedAction
      | some (action, rest) => do
        let path ← parsePath (Text.trim action)
        let segments ← parse rest
        .ok (ofText before ++ .field path :: segments)) := by
  rw [parse]
  split
  · rename_i hcut
    rw [h] at hcut
    cases hcut
  · rename_i hcut
    rw [h] at hcut
    cases hcut
    split
    · rename_i hclosing
      rw [hclosing]
    · rename_i hclosing
      rw [hclosing]

theorem breakOn_closing (haction : '\x7d' ∉ action) (rest : List Char) :
    Text.breakOn closing (action ++ closing ++ rest) = some (action, rest) :=
  Text.breakOn_append closing_ne_nil (Text.pair_first_of_not_mem haction)

/-- An action is read up to the first closing braces. -/
theorem parse_action (haction : '\x7d' ∉ action) (rest : List Char) :
    parse (opening ++ (action ++ closing ++ rest)) = (do
      let path ← parsePath (Text.trim action)
      let segments ← parse rest
      .ok (.field path :: segments)) := by
  rw [parse_of_breakOn (Text.breakOn_start opening_ne_nil _), breakOn_closing haction rest]
  rfl

/-- A text in front of an action becomes a segment in front of what is read there. -/
theorem parse_append_opening (h : ¬ opening <:+: before ++ opening.dropLast)
    (rest : List Char) : parse (before ++ (opening ++ rest)) =
      (parse (opening ++ rest)).map (ofText before ++ ·) := by
  rw [← List.append_assoc, parse_of_breakOn (Text.breakOn_append opening_ne_nil h),
    parse_of_breakOn (Text.breakOn_start opening_ne_nil rest)]
  cases Text.breakOn closing rest with
  | none => rfl
  | some cut =>
    cases hpath : parsePath (Text.trim cut.1) with
    | error fault => simp only [hpath]; rfl
    | ok path =>
      cases hrest : parse cut.2 with
      | error fault => simp only [hpath, hrest]; rfl
      | ok segments => simp only [hpath, hrest]; rfl

/-- A source that is read is a text, or it is read up to the end of its first action and from
there on. -/
theorem parse_cases (h : parse s = .ok segments) :
    (¬ opening <:+: s ∧ segments = ofText s) ∨
      ∃ before action rest path more, s = before ++ (opening ++ action ++ closing) ++ rest ∧
        ¬ opening <:+: before ++ opening.dropLast ∧ parsePath (Text.trim action) = .ok path ∧
        parse rest = .ok more ∧ segments = ofText before ++ .field path :: more := by
  rw [parse] at h
  split at h
  · rename_i hcut
    cases h
    exact Or.inl ⟨Text.breakOn_eq_none_iff.1 hcut, rfl⟩
  · rename_i before after hcut
    obtain ⟨hs, hfirst⟩ := (Text.breakOn_eq_some_iff opening_ne_nil).1 hcut
    split at h
    · cases h
    · rename_i action rest haction
      obtain ⟨path, hpath, h⟩ := Tree.exists_of_bind_eq_ok h
      obtain ⟨more, hmore, h⟩ := Tree.exists_of_bind_eq_ok h
      cases h
      refine Or.inr ⟨before, action, rest, path, more, ?_, hfirst, hpath, hmore, rfl⟩
      rw [hs, Text.breakOn_eq_append haction]
      simp only [List.append_assoc]

/-! ## Cuts of a source -/

/-- What a segment may be written as. A text stands for itself, and there may be blanks around
the path of an action. -/
inductive Written : Segment → List Char → Prop
  | text {s : String} (nonempty : s ≠ "") (plain : ¬ opening <:+: s.toList) :
    Written (.text s) s.toList
  | field {path : List String} {left right : List Char} (isPath : IsPath path)
    (left_gap : Text.Gap left) (right_gap : Text.Gap right) :
    Written (.field path) (opening ++ (left ++ dotted path ++ right) ++ closing)

/-- Which segments may follow each other: no two texts, and no action behind a text that ends
with an opening brace. -/
def MayPrecede : Segment → Segment → Prop
  | .text _, .text _ => False
  | .text s, .field _ => s.toList.getLast? ≠ some '\x7b'
  | .field _, _ => True

/-- A source cut into segments, each with what it is written as. -/
structure Cuts (pieces : List (Segment × List Char)) (source : List Char) : Prop where
  written : ∀ piece ∈ pieces, piece.1.Written piece.2
  order : (pieces.map Prod.fst).IsChain MayPrecede
  whole : source = pieces.flatMap Prod.snd

theorem cuts_nil_iff : Cuts [] s ↔ s = [] :=
  ⟨fun h => h.whole, fun h => ⟨by simp, List.IsChain.nil, h⟩⟩

theorem cuts_cons_iff : Cuts ((g, w) :: pieces) s ↔
    g.Written w ∧ (∀ next ∈ (pieces.map Prod.fst).head?, g.MayPrecede next) ∧
      ∃ rest, s = w ++ rest ∧ Cuts pieces rest := by
  constructor
  · rintro ⟨hwritten, horder, hwhole⟩
    obtain ⟨hg, hpieces⟩ := List.forall_mem_cons.1 hwritten
    obtain ⟨hnext, hchain⟩ := List.isChain_cons.1 horder
    exact ⟨hg, hnext, _, hwhole, hpieces, hchain, rfl⟩
  · rintro ⟨hg, hnext, rest, rfl, hpieces⟩
    exact ⟨List.forall_mem_cons.2 ⟨hg, hpieces.written⟩,
      List.isChain_cons.2 ⟨hnext, hpieces.order⟩,
      by rw [hpieces.whole, List.flatMap_cons]⟩

/-- The inside of an action has no closing brace. -/
theorem brace_not_mem_action (h : IsPath path) {left right : List Char} (hl : Text.Gap left)
    (hr : Text.Gap right) : '\x7d' ∉ left ++ dotted path ++ right := by
  have hgap : ∀ {gap : List Char}, Text.Gap gap → '\x7d' ∉ gap := fun hgap hmem =>
    absurd (hgap _ hmem) (by decide)
  rw [List.mem_append, List.mem_append]
  rintro ((hmem | hmem) | hmem)
  · exact hgap hl hmem
  · exact h.brace_not_mem_dotted hmem
  · exact hgap hr hmem

/-- Sources that start with the same segment go on alike. -/
theorem Written.unique {v rest' : List Char} (hv : g.Written v) (hw : g.Written w)
    (h : v ++ rest = w ++ rest') : v = w ∧ rest = rest' := by
  cases hv with
  | text _ _ =>
    cases hw
    exact ⟨rfl, List.append_cancel_left h⟩
  | field hpath hl hr =>
    cases hw with
    | field _ hl' hr' =>
      simp only [List.append_assoc, List.append_cancel_left_eq] at h
      simp only [← List.append_assoc] at h
      have hcut := breakOn_closing (brace_not_mem_action hpath hl hr) rest
      have hcut' := breakOn_closing (brace_not_mem_action hpath hl' hr') rest'
      have hsame := hcut.symm.trans ((congrArg (Text.breakOn closing) h).trans hcut')
      obtain ⟨haction, hrest⟩ := Prod.mk.inj (Option.some.inj hsame)
      exact ⟨by rw [haction], hrest⟩

/-- A source that starts with a segment that is no text starts with opening braces. -/
theorem Cuts.starts_with_opening {path : List String}
    (h : Cuts ((.field path, w) :: pieces) s) : ∃ rest, s = opening ++ rest := by
  obtain ⟨hg, -, rest, rfl, -⟩ := cuts_cons_iff.1 h
  cases hg
  exact ⟨_, by rw [List.append_assoc, List.append_assoc]⟩

theorem parse_written_field {path : List String} (h : Written (.field path) w)
    (hrest : parse rest = .ok segments) : parse (w ++ rest) = .ok (.field path :: segments) := by
  cases h with
  | field hpath hl hr =>
    have htrim := Text.trim_gaps hl hpath.trimmed hr
    have hparse := parsePath_eq_ok_iff.2 ⟨hpath, rfl⟩
    rw [List.append_assoc, List.append_assoc, ← List.append_assoc _ closing rest,
      parse_action (brace_not_mem_action hpath hl hr), htrim, hparse, hrest]
    rfl

theorem ofText_toList {s : String} (h : s ≠ "") : ofText s.toList = [.text s] := by
  rw [ofText_of_ne_nil fun hnil => h (String.toList_eq_nil_iff.1 hnil), String.ofList_toList]

/-- A source that is cut is read, and gives the segments that it is cut into. -/
theorem Cuts.parse_eq (h : Cuts pieces s) : parse s = .ok (pieces.map Prod.fst) := by
  induction pieces generalizing s with
  | nil =>
    rw [cuts_nil_iff.1 h, parse_of_not_infix (by decide)]
    rfl
  | cons piece pieces ih =>
    obtain ⟨g, w⟩ := piece
    obtain ⟨hg, hnext, rest, rfl, hpieces⟩ := cuts_cons_iff.1 h
    cases hg with
    | field hpath hl hr => exact parse_written_field (.field hpath hl hr) (ih hpieces)
    | text hne hplain =>
      match pieces, hnext, hpieces with
      | [], _, hpieces =>
        rw [cuts_nil_iff.1 hpieces, List.append_nil, parse_of_not_infix hplain, ofText_toList hne]
        rfl
      | (.text b, _) :: _, hnext, _ => exact absurd (hnext _ rfl) id
      | (.field path, _) :: _, hnext, hpieces =>
        obtain ⟨more, hmore⟩ := hpieces.starts_with_opening
        have hfirst := Text.pair_first_iff.2 ⟨hplain, hnext _ rfl⟩
        have hread := ih hpieces
        rw [hmore] at hread ⊢
        rw [parse_append_opening hfirst, hread, ofText_toList hne]
        rfl

/-! ## Reading gives a cut -/

/-- What is read as an action is a path with blanks around it. -/
theorem written_of_parsePath (h : parsePath (Text.trim action) = .ok path) :
    Written (.field path) (opening ++ action ++ closing) := by
  obtain ⟨hpath, htrim⟩ := parsePath_eq_ok_iff.1 h
  obtain ⟨left, right, hl, hr, haction⟩ := Text.exists_gaps_trim action
  rw [haction, htrim]
  exact .field hpath hl hr

theorem Written.ofList (hne : s ≠ []) (hplain : ¬ opening <:+: s) :
    Written (.text (String.ofList s)) s := by
  have hwritten := Written.text (s := String.ofList s)
  rw [String.toList_ofList] at hwritten
  exact hwritten (fun hempty => hne (String.ofList_eq_empty_iff.1 hempty)) hplain

theorem exists_cuts_of_not_infix (h : ¬ opening <:+: s) :
    ∃ pieces, Cuts pieces s ∧ ofText s = pieces.map Prod.fst := by
  by_cases hs : s = []
  · exact ⟨[], cuts_nil_iff.2 hs, if_pos hs⟩
  · refine ⟨[(.text (String.ofList s), s)],
      cuts_cons_iff.2 ⟨.ofList hs h, by simp, [], ?_, ?_⟩, ?_⟩
    · exact (List.append_nil s).symm
    · exact cuts_nil_iff.2 rfl
    · exact ofText_of_ne_nil hs

/-- A text may stand in front of an action if the opening braces of the action are the first
ones. -/
theorem Cuts.exists_append {path : List String} (h : Cuts ((.field path, w) :: pieces) s)
    (hfirst : ¬ opening <:+: before ++ opening.dropLast) : ∃ more, Cuts more (before ++ s) ∧
      ofText before ++ .field path :: pieces.map Prod.fst = more.map Prod.fst := by
  obtain ⟨hplain, hlast⟩ := Text.pair_first_iff.1 hfirst
  by_cases hbefore : before = []
  · subst hbefore
    exact ⟨_, h, rfl⟩
  · refine ⟨(.text (String.ofList before), before) :: (.field path, w) :: pieces,
      cuts_cons_iff.2 ⟨.ofList hbefore hplain, ?_, s, rfl, h⟩, ?_⟩
    · rintro next ⟨⟩
      rw [MayPrecede, String.toList_ofList]
      exact hlast
    · rw [ofText_of_ne_nil hbefore]
      rfl

/-- A source that is read is cut into the segments that it is read as. -/
theorem exists_cuts_of_parse (h : parse s = .ok segments) :
    ∃ pieces, Cuts pieces s ∧ segments = pieces.map Prod.fst := by
  induction hn : s.length using Nat.strong_induction_on generalizing s segments with
  | _ n ih =>
    rcases parse_cases h with ⟨hplain, rfl⟩ | ⟨before, action, rest, path, more, rfl, hfirst,
      hpath, hmore, rfl⟩
    · exact exists_cuts_of_not_infix hplain
    · have hshorter : rest.length < n := by
        rw [← hn]
        simp only [List.length_append, opening, List.length_cons]
        omega
      obtain ⟨pieces, hpieces, rfl⟩ := ih _ hshorter hmore rfl
      have hcuts : Cuts ((.field path, opening ++ action ++ closing) :: pieces)
          (opening ++ action ++ closing ++ rest) :=
        cuts_cons_iff.2 ⟨written_of_parsePath hpath, fun _ _ => trivial, rest, rfl, hpieces⟩
      rw [List.append_assoc before]
      exact hcuts.exists_append hfirst

/-- There is one cut of a source at most. -/
theorem Cuts.unique {pieces' : List (Segment × List Char)} (h : Cuts pieces s)
    (h' : Cuts pieces' s) : pieces = pieces' := by
  have hsame : pieces.map Prod.fst = pieces'.map Prod.fst :=
    Except.ok.inj (h.parse_eq.symm.trans h'.parse_eq)
  induction pieces generalizing pieces' s with
  | nil => exact (List.map_eq_nil_iff.1 hsame.symm).symm
  | cons piece pieces ih =>
    match pieces', hsame with
    | (g', w') :: pieces', hsame =>
      obtain ⟨g, w⟩ := piece
      obtain ⟨hsegment, hmore⟩ := List.cons.inj hsame
      obtain rfl : g = g' := hsegment
      obtain ⟨hw, -, rest, hs, hpieces⟩ := cuts_cons_iff.1 h
      obtain ⟨hw', -, rest', hs', hpieces'⟩ := cuts_cons_iff.1 h'
      obtain ⟨rfl, rfl⟩ := hw.unique hw' (hs.symm.trans hs')
      rw [ih hpieces hpieces' hmore]

/-! ## Printed segments -/

instance (path : List String) : Decidable (IsPath path) :=
  decidable_of_iff (path ≠ [] ∧ ∀ name ∈ path, isName name.toList = true)
    ⟨fun h => ⟨h.1, h.2⟩, fun h => ⟨h.nonempty, h.names⟩⟩

/-- A segment that can be written: a text that is not empty and does not hold two opening
braces, or a path. -/
def IsProper : Segment → Prop
  | .text s => s ≠ "" ∧ ¬ opening <:+: s.toList
  | .field path => IsPath path

instance (g : Segment) : Decidable g.IsProper :=
  match g with
  | .text _ => inferInstanceAs (Decidable (_ ∧ _))
  | .field path => inferInstanceAs (Decidable (IsPath path))

instance : DecidableRel MayPrecede
  | .text _, .text _ => inferInstanceAs (Decidable False)
  | .text _, .field _ => inferInstanceAs (Decidable (_ ≠ _))
  | .field _, _ => inferInstanceAs (Decidable True)

theorem Written.isProper (h : g.Written w) : g.IsProper := by
  cases h with
  | text hne hplain => exact ⟨hne, hplain⟩
  | field hpath _ _ => exact hpath

theorem IsProper.written_source (h : g.IsProper) : g.Written g.source := by
  cases g with
  | text s => exact .text h.1 h.2
  | field path =>
    have hnil : Text.Gap [] := fun _ hc => nomatch hc
    have hwritten := Written.field h hnil hnil
    rwa [List.nil_append, List.append_nil] at hwritten

/-- Segments that can be written one after another. -/
structure Normal (segments : List Segment) : Prop where
  proper : ∀ g ∈ segments, g.IsProper
  order : segments.IsChain MayPrecede

instance (segments : List Segment) : Decidable (Normal segments) :=
  decidable_of_iff ((∀ g ∈ segments, g.IsProper) ∧ segments.IsChain MayPrecede)
    ⟨fun h => ⟨h.1, h.2⟩, fun h => ⟨h.proper, h.order⟩⟩

theorem Cuts.normal (h : Cuts pieces s) : Normal (pieces.map Prod.fst) := by
  refine ⟨fun g hg => ?_, h.order⟩
  obtain ⟨piece, hpiece, rfl⟩ := List.mem_map.1 hg
  exact (h.written piece hpiece).isProper

/-- Such segments are cut out of what they are printed as. -/
theorem Normal.cuts (h : Normal segments) :
    Cuts (segments.map fun g => (g, g.source)) (segments.flatMap source) := by
  refine ⟨fun piece hpiece => ?_, ?_, ?_⟩
  · obtain ⟨g, hg, rfl⟩ := List.mem_map.1 hpiece
    exact (h.proper g hg).written_source
  · rw [List.map_map]
    exact (List.map_id segments).symm ▸ h.order
  · rw [List.flatMap_map]

theorem Normal.parse_printed (h : Normal segments) :
    parse (segments.flatMap source) = .ok segments := by
  rw [h.cuts.parse_eq, List.map_map]
  exact congrArg Except.ok (List.map_id segments)

end Segment

namespace Template

variable {name source : String} {t : Template}

/-- A source compiles exactly if it can be cut into segments, and it compiles to these. -/
theorem parse_eq_ok_iff : parse name source = .ok t ↔
    ∃ pieces, Segment.Cuts pieces source.toList ∧ t = ⟨name, pieces.map Prod.fst⟩ := by
  rw [parse]
  constructor
  · intro h
    split at h
    · rename_i segments hsegments
      cases h
      obtain ⟨pieces, hpieces, rfl⟩ := Segment.exists_cuts_of_parse hsegments
      exact ⟨pieces, hpieces, rfl⟩
    · cases h
  · rintro ⟨pieces, hpieces, rfl⟩
    rw [hpieces.parse_eq]

/-- A template of segments that can be written is what its printed source compiles to. -/
theorem parse_printed_of_normal (h : Segment.Normal t.segments) :
    parse t.name t.source = .ok t := by
  rw [parse, source, String.toList_ofList, h.parse_printed]

/-- A compiled template is what its printed source compiles to. -/
theorem parse_printed (h : parse name source = .ok t) : parse name t.source = .ok t := by
  obtain ⟨pieces, hpieces, rfl⟩ := parse_eq_ok_iff.1 h
  exact parse_printed_of_normal hpieces.normal

end Template

end Coordination
