import Coordination.OrderedMap.Lookup
import Coordination.Proofs.Template.Resolution

/-!
# Rendering with assigned strings

Where a table has strings for names and nothing else, a path of one name leads to the string of
the name, and a path of several leads nowhere: a string has no fields. So a template renders with
strings for all of its paths exactly if none of these is dotted, and then each action is replaced
by its string.
-/

namespace Coordination

namespace Data

/-- A later field comes in place of an earlier one of its name. -/
theorem lookup_insertField (name : String) (d : Data) (fields : List (String × Data))
    (name' : String) : (insertField name d fields).lookup name' =
      if name' = name then some d else fields.lookup name' := by
  have hinsert : insertField name d fields = OrderedMap.insertPair name d fields := by
    induction fields with
    | nil => rfl
    | cons p rest ih => rw [insertField, OrderedMap.insertPair, ih]
  rw [hinsert, OrderedMap.lookup_insertPair]

/-- The table has a string for each of the names, and no other fields. -/
def Assigns (σ : String → String) (names : List String) (d : Data) : Prop :=
  ∀ name, d.field? name = if name ∈ names then some (.text (σ name)) else none

theorem assigns_sortFields (σ : String → String) (names : List String) :
    Assigns σ names (.table (sortFields (names.map fun name => (name, .text (σ name))))) := by
  intro name
  show (sortFields _).lookup name = _
  -- the fields are put in one by one, so the last one is looked at first
  induction names using List.reverseRecOn with
  | nil => rfl
  | append_singleton names last ih =>
    rw [sortFields, List.map_append, List.foldl_append, ← sortFields]
    show (insertField last (.text (σ last)) _).lookup name = _
    rw [lookup_insertField, ih]
    by_cases hlast : name = last
    · rw [if_pos hlast, if_pos (by simp [hlast]), hlast]
    · rw [if_neg hlast]
      simp only [List.mem_append, List.mem_singleton, hlast, or_false]

namespace Assigns

variable {σ : String → String} {names : List String} {d : Data} {path : String}

/-- A path of one name leads to its string. -/
theorem scalarAt?_of_plain (h : Assigns σ names d) (hplain : '.' ∉ path.toList) :
    d.scalarAt? path = if path ∈ names then some (σ path) else none := by
  rw [scalarAt?, Text.splitAll_of_not_mem hplain, List.map_singleton, String.ofList_toList,
    descend?, h]
  split <;> rfl

/-- Below a string there is nothing. -/
theorem scalarAt?_of_dotted (h : Assigns σ names d) (hdotted : '.' ∈ path.toList) :
    d.scalarAt? path = none := by
  obtain ⟨before, after, hpath, hbefore⟩ := List.eq_append_cons_of_mem hdotted
  obtain ⟨first, rest, hrest⟩ := List.exists_cons_of_ne_nil (Text.splitAll_ne_nil '.' after)
  rw [scalarAt?, hpath, Text.splitAll_append, Text.splitAll_of_not_mem hbefore, hrest]
  show ((d.field? _).bind fun inner => inner.descend? (_ :: _)).bind scalarText? = none
  rw [h]
  split <;> rfl

end Assigns

end Data

namespace Segment

/-- What a segment is replaced by: a text by itself, an action by the string of its path. -/
def substituted (σ : String → String) : Segment → String
  | .text s => s
  | .field path => σ (".".intercalate path)

end Segment

namespace Template

variable {σ : String → String} {names : List String} {d : Data} {name source : String}
  {t : Template}

/-- The template with strings in place of its actions. -/
def substituted (σ : String → String) (t : Template) : String :=
  String.join (t.segments.map (Segment.substituted σ))

theorem map_filled_of_assigns (hd : d.Assigns σ names) (hnames : t.fields ⊆ names)
    (hplain : ∀ path ∈ t.fields, '.' ∉ path.toList) :
    t.segments.map (Segment.filled d) = t.segments.map (Segment.substituted σ) := by
  refine List.map_congr_left fun g hg => ?_
  cases g with
  | text s => rfl
  | field path =>
    have hmem := mem_fields_of_mem hg
    rw [Segment.filled, hd.scalarAt?_of_plain (hplain _ hmem), if_pos (hnames hmem)]
    rfl

/-- A template with strings for all of its paths renders if none of these is dotted, and else a
dotted one is the error. -/
theorem render_cases_of_assigns (h : parse name source = .ok t) (hd : d.Assigns σ names)
    (hnames : t.fields ⊆ names) :
    ((∀ path ∈ t.fields, '.' ∉ path.toList) ∧ t.render d = .ok (t.substituted σ)) ∨
      ∃ path ∈ t.fields, '.' ∈ path.toList ∧ t.render d = .error (.unresolved name path) := by
  rw [render_eq_of_parse h]
  cases hfirst : t.fields.find? fun path => (d.scalarAt? path).isNone with
  | some path =>
    have hmem := List.mem_of_find?_eq_some hfirst
    refine Or.inr ⟨path, hmem, ?_, rfl⟩
    by_contra hplain
    have hnone := List.find?_some hfirst
    rw [hd.scalarAt?_of_plain hplain, if_pos (hnames hmem)] at hnone
    cases hnone
  | none =>
    have hplain : ∀ path ∈ t.fields, '.' ∉ path.toList := by
      intro path hpath hdotted
      refine List.find?_eq_none.1 hfirst path hpath ?_
      rw [hd.scalarAt?_of_dotted hdotted]
      rfl
    exact Or.inl ⟨hplain, congrArg (fun parts => Except.ok (String.join parts))
      (map_filled_of_assigns hd hnames hplain)⟩

end Template

namespace KeyTemplate

/-- The template reads the field, for its path or for its payload. -/
def Reads (t : KeyTemplate) (field : String) : Prop :=
  ∃ path, (.field path ∈ t.key.segments ∨ .field path ∈ t.value.segments) ∧
    field = ".".intercalate path

theorem reads_iff {t : KeyTemplate} {field : String} :
    t.Reads field ↔ field ∈ t.key.fields ∨ field ∈ t.value.fields := by
  rw [Template.mem_fields_iff, Template.mem_fields_iff, ← exists_or]
  exact exists_congr fun path => or_and_right

/-- What comes of strings for the fields of a template: its path and its payload with the strings
in place of the actions, unless a field is dotted; such a field is the error. -/
structure Substitutes (t : KeyTemplate) (σ : String → String)
    (outcome : Except TemplateError (String × String)) : Prop where
  plain : (∀ field, t.Reads field → '.' ∉ field.toList) →
    outcome = .ok (t.key.substituted σ, t.value.substituted σ)
  dotted : (∃ field, t.Reads field ∧ '.' ∈ field.toList) →
    ∃ part field, t.Reads field ∧ '.' ∈ field.toList ∧ outcome = .error (.unresolved part field)

theorem Substitutes.of_dotted {t : KeyTemplate} {σ : String → String} {part field : String}
    (hread : t.Reads field) (hdotted : '.' ∈ field.toList) :
    t.Substitutes σ (.error (.unresolved part field)) :=
  ⟨fun hplain => absurd hdotted (hplain field hread), fun _ => ⟨part, field, hread, hdotted, rfl⟩⟩

end KeyTemplate

namespace TemplateSet

variable {set : TemplateSet} {name : String} {t : KeyTemplate} {σ : String → String}
  {names : List String} {fields : List (String × Data)}

theorem Compiled.deriveFields_of_assigns (h : set.Compiled)
    (hget : set.templates.get? name = some t) (hfields : Data.Assigns σ names (.table fields))
    (hnames : ∀ field, t.Reads field → field ∈ names) :
    t.Substitutes σ (set.deriveFields name (.table fields)) := by
  obtain ⟨⟨keyBody, hkey⟩, ⟨valueBody, hvalue⟩, -⟩ := h.parts hget
  have hkeys : ∀ field ∈ t.key.fields, t.Reads field := fun field hmem =>
    KeyTemplate.reads_iff.2 (Or.inl hmem)
  have hvalues : ∀ field ∈ t.value.fields, t.Reads field := fun field hmem =>
    KeyTemplate.reads_iff.2 (Or.inr hmem)
  rw [deriveFields_of_get? hget]
  rcases Template.render_cases_of_assigns hkey hfields fun f hf => hnames f (hkeys f hf) with
    ⟨hplain, hrender⟩ | ⟨field, hmem, hdotted, hrender⟩
  · rw [hrender]
    rcases Template.render_cases_of_assigns hvalue hfields fun f hf => hnames f (hvalues f hf) with
      ⟨hplain', hrender'⟩ | ⟨field, hmem, hdotted, hrender'⟩
    · rw [hrender']
      refine ⟨fun _ => rfl, fun hdotted => ?_⟩
      obtain ⟨field, hread, hdotted⟩ := hdotted
      rcases KeyTemplate.reads_iff.1 hread with hmem | hmem
      · exact absurd hdotted (hplain field hmem)
      · exact absurd hdotted (hplain' field hmem)
    · rw [hrender']
      exact .of_dotted (hvalues field hmem) hdotted
  · rw [hrender]
    exact .of_dotted (hkeys field hmem) hdotted

end TemplateSet

end Coordination
