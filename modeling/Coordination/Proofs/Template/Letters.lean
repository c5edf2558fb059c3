import Coordination.Namespace.Standard
import Coordination.Proofs.Tree.Calls

/-!
# The letters of a template

A template is cut into texts and fields, and one text may be cut into several. Read letter
by letter it is the same however it is cut: a letter is a character that stands for itself,
or a field that stands for the text of its value. So templates can be compared, and one can
be said to go on where another ends. What a template spells stays the same when fields are
added behind those that there are.
-/

namespace Coordination

/-- A letter of a template. -/
inductive Letter where
  | char (c : Char)
  | field (path : List String)
  deriving DecidableEq

/-- The letters of a segment. -/
def Segment.letters : Segment → List Letter
  | .text s => s.toList.map .char
  | .field path => [.field path]

/-- The letters of a template. -/
def Template.letters (t : Template) : List Letter := t.segments.flatMap Segment.letters

namespace Data

/-- What a letter spells in a context. -/
def spellLetter? (context : Data) : Letter → Option (List Char)
  | .char c => some [c]
  | .field path => ((context.descend? path).bind scalarText?).map String.toList

/-- What letters spell in a context. -/
def spell? (context : Data) : List Letter → Option (List Char)
  | [] => some []
  | l :: rest => do
    let first ← context.spellLetter? l
    let more ← context.spell? rest
    some (first ++ more)

variable {context : Data}

theorem spell?_append {a b : List Letter} {s₁ s₂ : List Char}
    (ha : context.spell? a = some s₁) (hb : context.spell? b = some s₂) :
    context.spell? (a ++ b) = some (s₁ ++ s₂) := by
  induction a generalizing s₁ with
  | nil =>
    cases ha
    exact hb
  | cons l rest ih =>
    obtain ⟨first, hfirst, ha⟩ := Option.bind_eq_some_iff.1 ha
    obtain ⟨more, hmore, ha⟩ := Option.bind_eq_some_iff.1 ha
    cases ha
    rw [List.cons_append, spell?, hfirst, ih hmore, List.append_assoc]
    rfl

theorem exists_of_spell?_append {a b : List Letter} {s : List Char}
    (h : context.spell? (a ++ b) = some s) :
    ∃ s₁ s₂, context.spell? a = some s₁ ∧ context.spell? b = some s₂ ∧ s = s₁ ++ s₂ := by
  induction a generalizing s with
  | nil => exact ⟨[], s, rfl, h, rfl⟩
  | cons l rest ih =>
    obtain ⟨first, hfirst, h⟩ := Option.bind_eq_some_iff.1 h
    obtain ⟨more, hmore, h⟩ := Option.bind_eq_some_iff.1 h
    cases h
    obtain ⟨s₁, s₂, hrest, hb, rfl⟩ := ih hmore
    refine ⟨first ++ s₁, s₂, ?_, hb, (List.append_assoc ..).symm⟩
    rw [spell?, hfirst, hrest]
    rfl

theorem spell?_text (s : List Char) : context.spell? (s.map .char) = some s := by
  induction s with
  | nil => rfl
  | cons c rest ih =>
    rw [List.map_cons, spell?, ih]
    rfl

theorem spell?_field {name s : String} (h : context.field? name = some (.text s)) :
    context.spell? [.field [name]] = some s.toList := by
  have hletter : context.spellLetter? (.field [name]) = some s.toList := by
    rw [spellLetter?, descend?, h]
    rfl
  rw [spell?, hletter]
  exact congrArg some (List.append_nil s.toList)

/-! ## More fields -/

theorem lookup_append_of_eq_some {fields more : List (String × Data)} {name : String} {d : Data}
    (h : fields.lookup name = some d) : (fields ++ more).lookup name = some d := by
  rw [List.lookup_append, h]
  rfl

/-- A letter that spells something spells the same when there are more fields. -/
theorem spellLetter?_more {fields : List (String × Data)} (more : List (String × Data))
    {l : Letter} {s : List Char} (h : (table fields).spellLetter? l = some s) :
    (table (fields ++ more)).spellLetter? l = some s := by
  match l with
  | .char c => exact h
  | .field [] => exact absurd h (by simp [spellLetter?, descend?, scalarText?])
  | .field (name :: path) =>
    cases hfield : fields.lookup name with
    | none =>
      rw [spellLetter?, descend?, field?, hfield] at h
      cases h
    | some d =>
      rw [spellLetter?, descend?, field?, hfield] at h
      rw [spellLetter?, descend?, field?, lookup_append_of_eq_some hfield]
      exact h

theorem spell?_more {fields : List (String × Data)} (more : List (String × Data))
    {letters : List Letter} {s : List Char} (h : (table fields).spell? letters = some s) :
    (table (fields ++ more)).spell? letters = some s := by
  induction letters generalizing s with
  | nil => exact h
  | cons l rest ih =>
    obtain ⟨first, hfirst, h⟩ := Option.bind_eq_some_iff.1 h
    obtain ⟨more', hmore, h⟩ := Option.bind_eq_some_iff.1 h
    rw [spell?, spellLetter?_more more hfirst, ih hmore]
    exact h

end Data

/-! ## Rendering -/

theorem Segment.render_eq_ok_iff {name : String} {context : Data} {g : Segment} {s : String} :
    g.render name context = .ok s ↔ context.spell? g.letters = some s.toList := by
  cases g with
  | text text =>
    rw [letters, Data.spell?_text, render]
    constructor
    · intro h
      cases h
      rfl
    · intro h
      rw [String.toList_inj.1 (Option.some.inj h)]
  | field path =>
    rw [letters, Data.spell?, Data.spellLetter?, render]
    cases hvalue : (context.descend? path).bind Data.scalarText? with
    | none => simp
    | some text =>
      have hspell : (do
          let first ← (some text).map String.toList
          let more ← context.spell? []
          some (first ++ more)) = some text.toList := congrArg some (List.append_nil _)
      rw [hspell]
      constructor
      · intro h
        cases h
        rfl
      · intro h
        rw [String.toList_inj.1 (Option.some.inj h)]

theorem Template.render_cons (name : String) (g : Segment) (rest : List Segment)
    (context : Data) : (Template.mk name (g :: rest)).render context = (do
      let first ← g.render name context
      let more ← (Template.mk name rest).render context
      pure (first ++ more)) := by
  rw [render, render, List.mapM_cons]
  cases g.render name context with
  | error fault => rfl
  | ok first =>
    cases rest.mapM (Segment.render name context) with
    | error fault => rfl
    | ok parts => exact congrArg Except.ok String.join_cons

/-- A template renders to what its letters spell. -/
theorem Template.render_eq_ok_iff {t : Template} {context : Data} {s : String} :
    t.render context = .ok s ↔ context.spell? t.letters = some s.toList := by
  obtain ⟨name, segments⟩ := t
  induction segments generalizing s with
  | nil =>
    show Except.ok (String.join []) = Except.ok s ↔ some [] = some s.toList
    rw [Except.ok.injEq, Option.some.injEq, ← String.toList_inj]
    rfl
  | cons g rest ih =>
    have hletters : (Template.mk name (g :: rest)).letters =
        g.letters ++ (Template.mk name rest).letters := List.flatMap_cons
    rw [render_cons, hletters]
    constructor
    · intro h
      obtain ⟨first, hfirst, h⟩ := Tree.exists_of_bind_eq_ok h
      obtain ⟨more, hmore, h⟩ := Tree.exists_of_bind_eq_ok h
      cases h
      rw [String.toList_append]
      exact Data.spell?_append (Segment.render_eq_ok_iff.1 hfirst) (ih.1 hmore)
    · intro h
      obtain ⟨s₁, s₂, hfirst, hmore, hs⟩ := Data.exists_of_spell?_append h
      have hg : g.render name context = .ok (String.ofList s₁) := by
        rw [Segment.render_eq_ok_iff, String.toList_ofList]
        exact hfirst
      have hrest : (Template.mk name rest).render context = .ok (String.ofList s₂) := by
        rw [ih, String.toList_ofList]
        exact hmore
      rw [hg, hrest, ← String.ofList_toList (s := s), hs, String.ofList_append]
      rfl

namespace TemplateSet

variable {set : TemplateSet} {e : Entry}

/-- An entry is derived from what the letters of its template spell. -/
theorem derive_eq_ok_iff {p v : String} : set.derive e = .ok (p, v) ↔
    ∃ t, set.templates.get? e.template = some t ∧
      e.fields.spell? t.key.letters = some p.toList ∧
      e.fields.spell? t.value.letters = some v.toList := by
  rw [derive, deriveFields, Entry.fields]
  cases set.templates.get? e.template with
  | none => simp
  | some t =>
    simp only [Option.some.injEq, exists_eq_left', ← Template.render_eq_ok_iff]
    cases t.key.render (.table e.fieldList) with
    | error fault => simp [bind, Except.bind]
    | ok key =>
      cases t.value.render (.table e.fieldList) with
      | error fault => simp [bind, Except.bind]
      | ok value => simp [bind, Except.bind]

theorem path_eq_ok_iff {p : String} : set.path e = .ok p ↔ ∃ v, set.derive e = .ok (p, v) := by
  rw [path]
  cases set.derive e with
  | error fault => simp [Except.map]
  | ok w => simp [Except.map, Prod.ext_iff]

/-! ## Templates that are kept -/

/-- Sources take the place of templates of their names only. -/
theorem get?_addAll {sources : List (String × String)} {set' : TemplateSet}
    (h : set.addAll sources = .ok set') {name : String}
    (hname : name ∉ sources.map Prod.fst) :
    set'.templates.get? name = set.templates.get? name := by
  induction sources generalizing set with
  | nil =>
    cases h
    rfl
  | cons source rest ih =>
    obtain ⟨hne, hrest⟩ := List.ne_and_not_mem_of_not_mem_cons hname
    rw [addAll] at h
    cases hcompile : KeyTemplate.compile source.1 source.2 with
    | error fault =>
      rw [hcompile] at h
      cases h
    | ok t =>
      rw [hcompile] at h
      rw [ih h hrest]
      exact (OrderedMap.get?_insert _ _ _ _).trans (if_neg hne)

theorem get?_withOverrides {overrides : OrderedMap String}
    (h : withOverrides overrides = .ok set) {name : String} (hname : overrides.get? name = none) :
    set.templates.get? name = standard.templates.get? name := by
  refine get?_addAll h fun hmem => ?_
  have hsome := OrderedMap.mem_keys.1 hmem
  rw [hname] at hsome
  cases hsome

end TemplateSet

end Coordination
