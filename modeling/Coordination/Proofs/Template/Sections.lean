import Coordination.Proofs.Template.Grammar
import Coordination.Template.Key

/-!
# What a source of blocks may be written as

A source is read as blocks exactly if it consists of blocks with blanks around them. A block
is a define action with a name in quotes, a body and an end action; its name does not hold two
closing braces and its body does not hold an end action. A key template is a source of two
such blocks, one for the key and one for the value, in either order, whose bodies are
templates.
-/

namespace Coordination

theorem bind_eq_ok_iff {ε α β : Type} {x : Except ε α} {f : α → Except ε β} {b : β} :
    (x >>= f) = .ok b ↔ ∃ a, x = .ok a ∧ f a = .ok b :=
  ⟨Tree.exists_of_bind_eq_ok, fun ⟨_, hx, hf⟩ => hx ▸ hf⟩

namespace Section

open Segment (closing closing_ne_nil)
open Text (Gap)

variable {b : Section} {sections : List Section} {s name body title rest after w : List Char}

/-! ## The parts of a block -/

theorem endMark_ne_nil : endMark ≠ [] := List.cons_ne_nil _ _

theorem unbordered_endMark : Text.Unbordered endMark := by decide

/-- A text is a name in quotes if it starts and ends with one, and something is between them. -/
theorem unquote?_eq_some_iff :
    unquote? s = some name ↔ name ≠ [] ∧ s = '"' :: (name ++ ['"']) := by
  constructor
  · intro h
    rw [unquote?.eq_def] at h
    split at h
    case h_2 => cases h
    case h_1 rest =>
      split at h
      case h_2 => cases h
      case h_1 inner hreverse =>
        have hrest : rest = inner.reverse ++ ['"'] := by
          rw [← List.reverse_reverse rest, hreverse, List.reverse_cons]
        by_cases hinner : inner = []
        · rw [if_pos hinner] at h
          cases h
        · rw [if_neg hinner] at h
          cases h
          exact ⟨fun hnil => hinner (List.reverse_eq_nil_iff.1 hnil), by rw [hrest]⟩
  · rintro ⟨hne, rfl⟩
    have hreverse : (name ++ ['"']).reverse = '"' :: name.reverse := List.reverse_concat
    rw [unquote?.eq_def]
    simp only [hreverse]
    rw [if_neg fun hnil => hne (List.reverse_eq_nil_iff.1 hnil), List.reverse_reverse]

/-- A title as it may be written: a name in quotes, with blanks around it. -/
def quoted (left : List Char) (name : List Char) (right : List Char) : List Char :=
  left ++ '"' :: (name ++ ['"']) ++ right

theorem brace_not_mem_quote {gap : List Char} (h : Gap gap) : '\x7d' ∉ '"' :: gap := by
  rw [List.mem_cons, not_or]
  exact ⟨by decide, fun hmem => absurd (h _ hmem) (by decide)⟩

/-- A title is read up to its end exactly if the name does not hold two closing braces. -/
theorem first_closing_iff {left right : List Char} (hl : Gap left) (hr : Gap right) :
    ¬ closing <:+: quoted left name right ++ closing.dropLast ↔ ¬ closing <:+: name := by
  have hquoted : quoted left name right = left ++ ['"'] ++ (name ++ '"' :: right) := by
    simp [quoted]
  have hpair : ∀ {s : List Char}, '\x7d' ∉ s → ¬ closing <:+: s := fun hs h =>
    hs (h.subset List.mem_cons_self)
  have hleft : '\x7d' ∉ left ++ ['"'] := by
    rw [List.mem_append, or_comm, ← List.mem_append]
    exact brace_not_mem_quote hl
  have hright := brace_not_mem_quote hr
  rw [closing, Text.pair_first_iff, hquoted, Text.pair_infix_append_iff (a := left ++ ['"']),
    Text.pair_infix_append_iff (a := name)]
  constructor
  · rintro ⟨hpairs, -⟩ hname
    exact hpairs (Or.inr (Or.inl (Or.inl hname)))
  · intro hname
    refine ⟨?_, fun hlast => ?_⟩
    · rintro (h | (h | h | ⟨-, h⟩) | ⟨h, -⟩)
      · exact hpair hleft h
      · exact hname h
      · exact hpair hright h
      · cases h
      · rw [List.getLast?_concat] at h
        cases h
    · rw [List.getLast?_append_of_ne_nil _ (by simp),
        List.getLast?_append_of_ne_nil _ (List.cons_ne_nil _ _)] at hlast
      exact hright (List.mem_of_getLast? hlast)

theorem trimmed_quoted (name : List Char) : Text.Trimmed ('"' :: (name ++ ['"'])) := by
  constructor
  · rintro c ⟨⟩
    decide
  · intro c hc
    rw [← List.cons_append, List.getLast?_concat] at hc
    cases hc
    decide

/-! ## One step of parsing -/

/-- What a source with all parts of a block at its start is read as. -/
theorem parseFrom_step {header : List Char} (hdefine : Text.afterStart defineMark s = some header)
    (htitle : Text.breakOn closing header = some (title, rest))
    (hname : unquote? (Text.trim title) = some name)
    (hend : Text.breakOn endMark rest = some (body, after)) :
    parseFrom s = (parseFrom (Text.trimStart after)).map
      (⟨String.ofList name, String.ofList body⟩ :: ·) := by
  have hs : s ≠ [] := by
    rintro rfl
    cases hdefine
  rw [parseFrom, if_neg hs]
  split
  · rename_i hnone
    cases hdefine.symm.trans hnone
  · rename_i hsome
    cases hdefine.symm.trans hsome
    split
    · rename_i hnone
      cases htitle.symm.trans hnone
    · rename_i hsome
      cases htitle.symm.trans hsome
      rw [hname]
      dsimp only
      split
      · rename_i hnone
        cases hend.symm.trans hnone
      · rename_i hsome
        cases hend.symm.trans hsome
        cases parseFrom (Text.trimStart after) <;> rfl

/-- A block is read up to the first end action behind its title, and so is what follows it. -/
theorem parseFrom_block {left right : List Char} (hname : name ≠ []) (hl : Gap left)
    (hr : Gap right) (hclosing : ¬ closing <:+: name) (hbody : ¬ endMark <:+: body)
    (after : List Char) :
    parseFrom (defineMark ++ (quoted left name right ++ closing ++ (body ++ endMark ++ after))) =
      (parseFrom (Text.trimStart after)).map
        (⟨String.ofList name, String.ofList body⟩ :: ·) := by
  have htitle : Text.breakOn closing
      (quoted left name right ++ closing ++ (body ++ endMark ++ after)) =
        some (quoted left name right, body ++ endMark ++ after) :=
    Text.breakOn_append closing_ne_nil ((first_closing_iff hl hr).2 hclosing)
  have hunquote : unquote? (Text.trim (quoted left name right)) = some name := by
    rw [quoted, Text.trim_gaps hl (trimmed_quoted name) hr]
    exact unquote?_eq_some_iff.2 ⟨hname, rfl⟩
  have hend : Text.breakOn endMark (body ++ endMark ++ after) = some (body, after) :=
    Text.breakOn_append endMark_ne_nil ((unbordered_endMark.first_iff endMark_ne_nil).2 hbody)
  exact parseFrom_step (Text.afterStart_eq_some_iff.2 rfl) htitle hunquote hend

/-- A source that is read is empty, or it is read up to the end of its first block and from the
next one on. -/
theorem parseFrom_cases (h : parseFrom s = .ok sections) : (s = [] ∧ sections = []) ∨
    ∃ title name body after more,
      s = defineMark ++ title ++ closing ++ body ++ endMark ++ after ∧
      ¬ closing <:+: title ++ closing.dropLast ∧ unquote? (Text.trim title) = some name ∧
      ¬ endMark <:+: body ++ endMark.dropLast ∧
      parseFrom (Text.trimStart after) = .ok more ∧
      sections = ⟨String.ofList name, String.ofList body⟩ :: more := by
  rw [parseFrom] at h
  split at h
  · rename_i hs
    cases h
    exact Or.inl ⟨hs, rfl⟩
  · split at h
    · cases h
    · rename_i header hheader
      split at h
      · cases h
      · rename_i title rest htitle
        split at h
        · cases h
        · rename_i name hname
          split at h
          · cases h
          · rename_i body after hbody
            obtain ⟨more, hmore, h⟩ := Tree.exists_of_bind_eq_ok h
            cases h
            obtain ⟨hrest, hfirst⟩ := (Text.breakOn_eq_some_iff closing_ne_nil).1 htitle
            obtain ⟨hafter, hend⟩ := (Text.breakOn_eq_some_iff endMark_ne_nil).1 hbody
            refine Or.inr ⟨title, name, body, after, more, ?_, hfirst, hname, hend, hmore, rfl⟩
            rw [Text.afterStart_eq_some_iff.1 hheader, hrest, hafter]
            simp only [List.append_assoc]

/-! ## Blocks -/

/-- What a block may be written as. There may be blanks around the name in quotes. -/
inductive Written : Section → List Char → Prop
  | block {name body : String} {left right : List Char} (named : name ≠ "")
    (title : ¬ closing <:+: name.toList) (plain : ¬ endMark <:+: body.toList)
    (left_gap : Gap left) (right_gap : Gap right) :
    Written ⟨name, body⟩
      (defineMark ++ quoted left name.toList right ++ closing ++ body.toList ++ endMark)

/-- A source of blocks, with blanks only around them. -/
inductive Blocks : List Section → List Char → Prop
  | nil {gap : List Char} (blank : Gap gap) : Blocks [] gap
  | cons {gap w rest : List Char} {b : Section} {sections : List Section} (blank : Gap gap)
    (written : b.Written w) (more : Blocks sections rest) :
    Blocks (b :: sections) (gap ++ w ++ rest)

theorem Written.ofList {left right : List Char} (hname : name ≠ [])
    (htitle : ¬ closing <:+: name) (hplain : ¬ endMark <:+: body) (hl : Gap left)
    (hr : Gap right) : Written ⟨String.ofList name, String.ofList body⟩
      (defineMark ++ quoted left name right ++ closing ++ body ++ endMark) := by
  obtain ⟨name, rfl⟩ : ∃ n : String, n.toList = name := ⟨_, String.toList_ofList⟩
  obtain ⟨body, rfl⟩ : ∃ b : String, b.toList = body := ⟨_, String.toList_ofList⟩
  rw [String.ofList_toList, String.ofList_toList]
  exact .block (fun hempty => hname (String.toList_eq_nil_iff.2 hempty)) htitle hplain hl hr

theorem trimStart_written (h : b.Written w) (rest : List Char) :
    Text.trimStart (w ++ rest) = w ++ rest := by
  refine Text.trimStart_of_head fun c hc => ?_
  cases h
  cases hc
  decide

theorem parseFrom_written (h : b.Written w) (rest : List Char) :
    parseFrom (w ++ rest) = (parseFrom (Text.trimStart rest)).map (b :: ·) := by
  cases h with
  | block hname htitle hplain hl hr =>
    have hne := fun hnil => hname (String.toList_eq_nil_iff.1 hnil)
    have hread := parseFrom_block hne hl hr htitle hplain rest
    rw [String.ofList_toList, String.ofList_toList] at hread
    rw [← hread]
    simp only [List.append_assoc]

/-- Blocks are read one after another. -/
theorem Blocks.parseFrom_eq (h : Blocks sections s) :
    parseFrom (Text.trimStart s) = .ok sections := by
  induction h with
  | nil hblank =>
    rw [show Text.trimStart _ = [] from hblank.dropWhile, parseFrom, if_pos rfl]
  | cons hblank hwritten _ ih =>
    rw [List.append_assoc, Text.trimStart_gap hblank, trimStart_written hwritten,
      parseFrom_written hwritten, ih]
    rfl

/-- What is read as a title is a name in quotes with blanks around it. -/
theorem exists_quoted (h : unquote? (Text.trim title) = some name) : name ≠ [] ∧
    ∃ left right, Gap left ∧ Gap right ∧ title = quoted left name right := by
  obtain ⟨hne, htrim⟩ := unquote?_eq_some_iff.1 h
  obtain ⟨left, right, hl, hr, htitle⟩ := Text.exists_gaps_trim title
  rw [htrim] at htitle
  exact ⟨hne, left, right, hl, hr, htitle⟩

theorem exists_blocks_of_parseFrom (h : parseFrom (Text.trimStart s) = .ok sections) :
    Blocks sections s := by
  induction hn : s.length using Nat.strong_induction_on generalizing s sections with
  | _ n ih =>
    obtain ⟨gap, hgap, hs⟩ := Text.exists_gap_trimStart s
    rcases parseFrom_cases h with ⟨hnil, rfl⟩ | ⟨title, name, body, after, more, htrim, hfirst,
      hname, hend, hmore, rfl⟩
    · rw [hs, hnil, List.append_nil]
      exact .nil hgap
    · obtain ⟨hne, left, right, hl, hr, rfl⟩ := exists_quoted hname
      have hwritten := Written.ofList hne ((first_closing_iff hl hr).1 hfirst)
        ((unbordered_endMark.first_iff endMark_ne_nil).1 hend) hl hr
      have hshorter : after.length < n := by
        rw [← hn, hs, htrim]
        simp only [List.length_append, endMark, Segment.opening, List.length_cons]
        omega
      have hrest := ih _ hshorter hmore rfl
      rw [hs, htrim, ← List.append_assoc]
      exact .cons hgap hwritten hrest

theorem parse_eq_ok_iff {template source : String} :
    parse template source = .ok sections ↔ Blocks sections source.toList := by
  rw [parse]
  constructor
  · intro h
    split at h
    · rename_i sections' hread
      cases h
      exact exists_blocks_of_parseFrom hread
    · cases h
  · intro h
    rw [h.parseFrom_eq]

/-! ## Printed blocks -/

/-- A block that can be printed: it has a name, the name does not hold two closing braces, and
the body does not hold an end action. -/
structure Printable (b : Section) : Prop where
  named : b.name ≠ ""
  title : ¬ closing <:+: b.name.toList
  plain : ¬ endMark <:+: b.body.toList

instance (b : Section) : Decidable b.Printable :=
  decidable_of_iff (b.name ≠ "" ∧ ¬ closing <:+: b.name.toList ∧ ¬ endMark <:+: b.body.toList)
    ⟨fun h => ⟨h.1, h.2.1, h.2.2⟩, fun h => ⟨h.named, h.title, h.plain⟩⟩

theorem Printable.written_source (h : b.Printable) : b.Written b.source := by
  have hleft : Gap [' '] := by decide
  have hright : Gap [] := fun _ hc => nomatch hc
  have hwritten := Written.block h.named h.title h.plain hleft hright
  have hsource : b.source =
      defineMark ++ quoted [' '] b.name.toList [] ++ closing ++ b.body.toList ++ endMark := by
    simp [source, quoted]
  rwa [hsource]

/-- Blocks that are printed with any blanks around them are read back. -/
theorem blocks_printed {blocks : List (List Char × Section)} {last : List Char}
    (h : ∀ block ∈ blocks, Gap block.1 ∧ block.2.Printable) (hlast : Gap last) :
    Blocks (blocks.map Prod.snd)
      (blocks.flatMap (fun block => block.1 ++ block.2.source) ++ last) := by
  induction blocks with
  | nil => exact .nil hlast
  | cons block blocks ih =>
    obtain ⟨⟨hgap, hprintable⟩, hblocks⟩ := List.forall_mem_cons.1 h
    rw [List.flatMap_cons, List.append_assoc]
    exact .cons hgap hprintable.written_source (ih hblocks)

end Section

/-! ## Key templates -/

namespace KeyTemplate

variable {name source : String} {b : Section} {sections rest : List Section}
  {key value : Option Template} {k v : Template} {r : Option Template × Option Template}

/-- A block gives the key or the value, if that was not given before. -/
theorem compileSections_cons_iff : compileSections name (b :: rest) key value = .ok r ↔
    (b.name = keyName ∧ key = none ∧ ∃ t, Template.parse (partName name keyName) b.body = .ok t ∧
      compileSections name rest (some t) value = .ok r) ∨
    (b.name = valueName ∧ value = none ∧
      ∃ t, Template.parse (partName name valueName) b.body = .ok t ∧
        compileSections name rest key (some t) = .ok r) := by
  have hdistinct : keyName ≠ valueName := by decide
  rw [compileSections]
  by_cases hkey : b.name = keyName
  · rw [if_pos hkey]
    cases key with
    | some t => simp [hkey, hdistinct]
    | none => simp [hkey, hdistinct, bind_eq_ok_iff]
  · rw [if_neg hkey]
    by_cases hvalue : b.name = valueName
    · rw [if_pos hvalue]
      cases value with
      | some t => simp [hkey]
      | none => simp [hvalue, hdistinct.symm, bind_eq_ok_iff]
    · simp [hkey, hvalue]

/-- Behind a key and a value there is no other block. -/
theorem compileSections_both_iff :
    compileSections name sections (some k) (some v) = .ok r ↔
      sections = [] ∧ r = (some k, some v) := by
  cases sections with
  | nil => simp [compileSections, eq_comm]
  | cons b rest => simp [compileSections_cons_iff]

/-- Behind a key there is one block, for the value. -/
theorem compileSections_key_iff {k' : Template} :
    compileSections name sections (some k) none = .ok (some k', some v) ↔
      k' = k ∧ ∃ body, sections = [⟨valueName, body⟩] ∧
        Template.parse (partName name valueName) body = .ok v := by
  cases sections with
  | nil => simp [compileSections]
  | cons b rest =>
    obtain ⟨title, body⟩ := b
    rw [compileSections_cons_iff]
    constructor
    · rintro (⟨-, hnone, -⟩ | ⟨rfl, -, t, ht, hrest⟩)
      · cases hnone
      · obtain ⟨rfl, hpair⟩ := compileSections_both_iff.1 hrest
        cases hpair
        exact ⟨rfl, body, rfl, ht⟩
    · rintro ⟨rfl, body', hsections, ht⟩
      cases hsections
      exact Or.inr ⟨rfl, rfl, v, ht, compileSections_both_iff.2 ⟨rfl, rfl⟩⟩

/-- Behind a value there is one block, for the key. -/
theorem compileSections_value_iff {v' : Template} :
    compileSections name sections none (some v) = .ok (some k, some v') ↔
      v' = v ∧ ∃ body, sections = [⟨keyName, body⟩] ∧
        Template.parse (partName name keyName) body = .ok k := by
  cases sections with
  | nil => simp [compileSections]
  | cons b rest =>
    obtain ⟨title, body⟩ := b
    rw [compileSections_cons_iff]
    constructor
    · rintro (⟨rfl, -, t, ht, hrest⟩ | ⟨-, hnone, -⟩)
      · obtain ⟨rfl, hpair⟩ := compileSections_both_iff.1 hrest
        cases hpair
        exact ⟨rfl, body, rfl, ht⟩
      · cases hnone
    · rintro ⟨rfl, body', hsections, ht⟩
      cases hsections
      exact Or.inl ⟨rfl, rfl, k, ht, compileSections_both_iff.2 ⟨rfl, rfl⟩⟩

/-- Blocks give a key and a value if they are one of each. -/
theorem compileSections_eq_ok_iff :
    compileSections name sections none none = .ok (some k, some v) ↔
      ∃ keyBody valueBody, (sections = [⟨keyName, keyBody⟩, ⟨valueName, valueBody⟩] ∨
          sections = [⟨valueName, valueBody⟩, ⟨keyName, keyBody⟩]) ∧
        Template.parse (partName name keyName) keyBody = .ok k ∧
        Template.parse (partName name valueName) valueBody = .ok v := by
  cases sections with
  | nil => simp [compileSections]
  | cons b rest =>
    obtain ⟨title, body⟩ := b
    rw [compileSections_cons_iff]
    constructor
    · rintro (⟨rfl, -, t, ht, hrest⟩ | ⟨rfl, -, t, ht, hrest⟩)
      · obtain ⟨rfl, valueBody, rfl, hv⟩ := compileSections_key_iff.1 hrest
        exact ⟨body, valueBody, Or.inl rfl, ht, hv⟩
      · obtain ⟨rfl, keyBody, rfl, hk⟩ := compileSections_value_iff.1 hrest
        exact ⟨keyBody, body, Or.inr rfl, hk, ht⟩
    · rintro ⟨keyBody, valueBody, hsections | hsections, hk, hv⟩
      · cases hsections
        exact Or.inl ⟨rfl, rfl, k, hk, compileSections_key_iff.2 ⟨rfl, valueBody, rfl, hv⟩⟩
      · cases hsections
        exact Or.inr ⟨rfl, rfl, v, hv, compileSections_value_iff.2 ⟨rfl, keyBody, rfl, hk⟩⟩

/-- A source compiles exactly if it consists of a block for the key and one for the value, in
either order, whose bodies compile, and it compiles to what these compile to. -/
theorem compile_eq_ok_iff {t : KeyTemplate} : compile name source = .ok t ↔
    ∃ keyBody valueBody,
      (Section.Blocks [⟨keyName, keyBody⟩, ⟨valueName, valueBody⟩] source.toList ∨
        Section.Blocks [⟨valueName, valueBody⟩, ⟨keyName, keyBody⟩] source.toList) ∧
      Template.parse (partName name keyName) keyBody = .ok t.key ∧
      Template.parse (partName name valueName) valueBody = .ok t.value ∧ t.name = name := by
  constructor
  · intro h
    obtain ⟨sections, hsections, h⟩ := Tree.exists_of_bind_eq_ok h
    obtain ⟨⟨key, value⟩, hboth, h⟩ := Tree.exists_of_bind_eq_ok h
    cases key with
    | none => cases h
    | some k =>
      cases value with
      | none => cases h
      | some v =>
        cases h
        obtain ⟨keyBody, valueBody, horder, hk, hv⟩ := compileSections_eq_ok_iff.1 hboth
        have hblocks := Section.parse_eq_ok_iff.1 hsections
        rcases horder with rfl | rfl
        · exact ⟨keyBody, valueBody, Or.inl hblocks, hk, hv, rfl⟩
        · exact ⟨keyBody, valueBody, Or.inr hblocks, hk, hv, rfl⟩
  · rintro ⟨keyBody, valueBody, hblocks, hk, hv, rfl⟩
    have hread : ∃ sections, Section.parse t.name source = .ok sections ∧
        compileSections t.name sections none none = .ok (some t.key, some t.value) := by
      rcases hblocks with hblocks | hblocks
      · exact ⟨_, Section.parse_eq_ok_iff.2 hblocks,
          compileSections_eq_ok_iff.2 ⟨_, _, Or.inl rfl, hk, hv⟩⟩
      · exact ⟨_, Section.parse_eq_ok_iff.2 hblocks,
          compileSections_eq_ok_iff.2 ⟨_, _, Or.inr rfl, hk, hv⟩⟩
    obtain ⟨sections, hsections, hboth⟩ := hread
    exact bind_eq_ok_iff.2 ⟨sections, hsections, bind_eq_ok_iff.2 ⟨_, hboth, rfl⟩⟩

end KeyTemplate

end Coordination
