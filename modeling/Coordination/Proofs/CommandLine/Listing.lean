import Coordination.CommandLine.Run
import Coordination.Proofs.Template.Resolution
import Mathlib.Data.List.Nodup

/-!
# The list of templates

The line of a template shows the fields that the template reads. A field has no comma, so the
fields can be read off the line, and there is one way only to do so. Each field of the payload
is shown once; those of the path are shown as often as they occur there.
-/

namespace Coordination

namespace Segment

/-- A field as it is listed: the names of a path with points between them. -/
def IsField (field : String) : Prop := ∃ path, IsPath path ∧ field = ".".intercalate path

namespace IsField

variable {field : String}

theorem eq_or_isNameChar (h : IsField field) {c : Char} (hc : c ∈ field.toList) :
    c = '.' ∨ isNameChar c = true := by
  obtain ⟨path, hpath, rfl⟩ := h
  refine hpath.mem_dotted ?_
  rw [dotted_eq_cons hpath.nonempty]
  exact List.mem_cons_of_mem _ hc

theorem not_mem (h : IsField field) {c : Char} (hc : ¬ (c = '.' ∨ isNameChar c = true)) :
    c ∉ field.toList := fun hmem => hc (h.eq_or_isNameChar hmem)

theorem ne_empty (h : IsField field) : field ≠ "" := by
  obtain ⟨path, hpath, rfl⟩ := h
  intro hempty
  have hsplit := hpath.splitAll_intercalate
  rw [hempty] at hsplit
  have hname := hpath.names "" (hsplit ▸ List.mem_singleton.2 rfl)
  exact absurd hname (by decide)

end IsField

end Segment

theorem Template.isField_of_mem_fields {name source field : String} {t : Template}
    (h : parse name source = .ok t) (hmem : field ∈ t.fields) : Segment.IsField field := by
  obtain ⟨path, hpath, rfl⟩ := mem_fields_iff.1 hmem
  exact ⟨path, (proper_of_parse h).2 _ hpath, rfl⟩

namespace CommandLine

/-! ## Fields put together -/

section Joined

variable {fields fields' : List String}

theorem joined_eq_empty_iff (h : ∀ f ∈ fields, Segment.IsField f) :
    ", ".intercalate fields = "" ↔ fields = [] := by
  constructor
  · intro hempty
    cases fields with
    | nil => rfl
    | cons f rest =>
      have hf := (h f List.mem_cons_self).ne_empty
      cases rest with
      | nil =>
        rw [String.intercalate_singleton] at hempty
        exact absurd hempty hf
      | cons g rest =>
        rw [String.intercalate_cons_cons, String.append_eq_empty_iff,
          String.append_eq_empty_iff] at hempty
        exact absurd hempty.1.1 hf
  · rintro rfl
    rfl

/-- Cut at its commas, the text gives the fields, each with a blank in front. -/
theorem splitAll_joined (h : ∀ f ∈ fields, Segment.IsField f) (hne : fields ≠ []) :
    Text.splitAll ',' (", ".toList ++ (", ".intercalate fields).toList) =
      [] :: fields.map fun f => ' ' :: f.toList := by
  rw [← Text.flatMap_intercalate ", " hne]
  have hparts : fields.flatMap (fun f => ", ".toList ++ f.toList) =
      (fields.map fun f => ' ' :: f.toList).flatMap (',' :: ·) := by
    rw [List.flatMap_map]
    rfl
  rw [hparts]
  refine Text.splitAll_flatMap fun part hpart => ?_
  obtain ⟨f, hf, rfl⟩ := List.mem_map.1 hpart
  intro hcomma
  rcases List.mem_cons.1 hcomma with hblank | hcomma
  · exact absurd hblank (by decide)
  · exact (h f hf).not_mem (by decide) hcomma

theorem joined_injective (h : ∀ f ∈ fields, Segment.IsField f)
    (h' : ∀ f ∈ fields', Segment.IsField f)
    (heq : ", ".intercalate fields = ", ".intercalate fields') : fields = fields' := by
  by_cases hempty : fields = []
  · rw [hempty] at heq ⊢
    exact ((joined_eq_empty_iff h').1 heq.symm).symm
  · have hempty' : fields' ≠ [] := fun hnil =>
      hempty ((joined_eq_empty_iff h).1 (heq.trans ((joined_eq_empty_iff h').2 hnil)))
    have hsplit := splitAll_joined h hempty
    rw [heq, splitAll_joined h' hempty'] at hsplit
    refine List.map_injective_iff.2 (fun f g hfg => ?_) (List.cons.inj hsplit).2.symm
    exact String.toList_injective (List.cons.inj hfg).2

end Joined

/-! ## The line of a template -/

/-- The line shows these fields of the template of the name. -/
structure Shows (line name : String) (fields : List String) : Prop where
  line : line = name ++ ": " ++ ", ".intercalate fields
  fields : ∀ f ∈ fields, Segment.IsField f

theorem Shows.unique {line name : String} {fields fields' : List String}
    (h : Shows line name fields) (h' : Shows line name fields') : fields = fields' := by
  refine joined_injective h.fields h'.fields ?_
  have hline := h.line.symm.trans h'.line
  rwa [String.append_right_inj] at hline

/-- Some names, with those of others behind them that are not among them yet. -/
def withMissing (names others : List String) : List String :=
  others.foldl (fun names name => if names.contains name then names else names ++ [name]) names

theorem mem_withMissing {name : String} {names others : List String} :
    name ∈ withMissing names others ↔ name ∈ names ∨ name ∈ others := by
  induction others generalizing names with
  | nil => simp [withMissing]
  | cons other others ih =>
    show name ∈ withMissing (if names.contains other then names else names ++ [other]) others ↔ _
    rw [ih, List.mem_cons]
    split
    · rename_i hother
      have hmem := List.contains_iff_mem.1 hother
      constructor
      · exact Or.imp_right Or.inr
      · rintro (hname | rfl | hname)
        · exact Or.inl hname
        · exact Or.inl hmem
        · exact Or.inr hname
    · rw [List.mem_append, List.mem_singleton, or_assoc]

theorem nodup_withMissing {names : List String} (h : names.Nodup) (others : List String) :
    (withMissing names others).Nodup := by
  induction others generalizing names with
  | nil => exact h
  | cons other others ih =>
    show (withMissing (if names.contains other then names else names ++ [other]) others).Nodup
    split
    · exact ih h
    · rename_i hother
      rw [List.contains_iff_mem] at hother
      refine ih ?_
      rw [← List.concat_eq_append, List.nodup_concat]
      exact ⟨hother, h⟩

section Listed

variable {set : TemplateSet} {name : String} {t : KeyTemplate}

theorem mem_fieldsRead (t : KeyTemplate) (field : String) :
    field ∈ fieldsRead t ↔ field ∈ t.key.fields ∨ field ∈ t.value.fields := mem_withMissing

theorem nodup_fieldsRead (h : t.key.fields.Nodup) : (fieldsRead t).Nodup :=
  nodup_withMissing h t.value.fields

/-- The line of a template shows the fields that the template reads. -/
theorem shows_describe (h : set.Compiled) (hget : set.templates.get? name = some t) :
    Shows (describe t) name (fieldsRead t) := by
  obtain ⟨⟨keyBody, hkey⟩, ⟨valueBody, hvalue⟩, hname⟩ := h.parts hget
  refine ⟨by rw [describe, hname], fun field hfield => ?_⟩
  rcases (mem_fieldsRead t field).1 hfield with hmem | hmem
  · exact Template.isField_of_mem_fields hkey hmem
  · exact Template.isField_of_mem_fields hvalue hmem

/-- There is one line for each name of the set, in the order of the names. -/
theorem map_name_toList (h : set.Compiled) :
    set.toList.map KeyTemplate.name = set.templates.keys := by
  rw [TemplateSet.toList, OrderedMap.values, List.map_map]
  exact List.map_congr_left fun p hp => (h.parts (OrderedMap.get?_eq_some_iff.2 hp)).2.2

theorem mem_toList (hget : set.templates.get? name = some t) : t ∈ set.toList :=
  List.mem_map.2 ⟨_, OrderedMap.get?_eq_some_iff.1 hget, rfl⟩

theorem run_templates {readText : String → Except IoError String} {config : Option String}
    {args : List String} (hset : loadTemplates readText config = .ok set)
    (hargs : Command.parse? args = some (.templates config)) :
    run readText args = ⟨0, lines (set.toList.map describe), ""⟩ := by
  simp only [run, hargs, print, hset]
  rfl

end Listed

end CommandLine

end Coordination
