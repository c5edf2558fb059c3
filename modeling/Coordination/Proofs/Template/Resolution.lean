import Coordination.Proofs.Template.Sources
import Mathlib.Data.List.Find

/-!
# What rendering reads

A template reads of a context the scalars that the listed paths lead to, and nothing else. It
renders exactly if all of these paths lead to scalars, and then its texts stand as they are and
each action is replaced by the text of its scalar; else the first path in source order that
leads to no scalar is the error. So contexts with the same scalars at these paths cannot be
told apart by rendering, nor by deriving an entry with a compiled set.
-/

namespace Coordination

/-! ## Dotted paths -/

namespace Data

/-- The text of the scalar that a path leads to, given as names with points between them. -/
def scalarAt? (d : Data) (path : String) : Option String :=
  (d.descend? ((Text.splitAll '.' path.toList).map String.ofList)).bind scalarText?

/-- Contexts that have the same scalars at some paths. -/
def AgreeOn (paths : List String) (d d' : Data) : Prop :=
  ∀ path ∈ paths, d.scalarAt? path = d'.scalarAt? path

instance (paths : List String) (d d' : Data) : Decidable (AgreeOn paths d d') :=
  inferInstanceAs (Decidable (∀ path ∈ paths, _))

theorem AgreeOn.mono {paths more : List String} {d d' : Data} (h : AgreeOn more d d')
    (hsub : paths ⊆ more) : AgreeOn paths d d' := fun path hpath => h path (hsub hpath)

end Data

namespace Segment

variable {path : List String} {name : String} {context : Data} {g : Segment}

theorem dotted_eq_cons (h : path ≠ []) :
    dotted path = '.' :: (".".intercalate path).toList := Text.flatMap_intercalate "." h

/-- The names of a path are what it is cut into at its points. -/
theorem IsPath.splitAll_intercalate (h : IsPath path) :
    (Text.splitAll '.' (".".intercalate path).toList).map String.ofList = path := by
  have hsplit := h.splitAll_dotted
  rw [dotted_eq_cons h.nonempty, Text.splitAll_cons_self] at hsplit
  rw [(List.cons.inj hsplit).2, map_ofList_toList]

theorem scalarAt?_path (h : IsPath path) (context : Data) :
    context.scalarAt? (".".intercalate path) =
      (context.descend? path).bind Data.scalarText? := by
  rw [Data.scalarAt?, h.splitAll_intercalate]

/-- What a segment is filled with: a text with itself, an action with the text of the scalar
that its path leads to. -/
def filled (context : Data) : Segment → String
  | .text s => s
  | .field path => (context.scalarAt? (".".intercalate path)).getD ""

theorem render_field (h : IsPath path) (name : String) (context : Data) :
    (Segment.field path).render name context =
      match context.scalarAt? (".".intercalate path) with
      | some s => .ok s
      | none => .error (.unresolved name (".".intercalate path)) := by
  rw [scalarAt?_path h]
  cases hscalar : (context.descend? path).bind Data.scalarText? <;>
    simp only [render, hscalar]

theorem filled_congr {context' : Data}
    (h : ∀ path, g = .field path → context.scalarAt? (".".intercalate path) =
      context'.scalarAt? (".".intercalate path)) : g.filled context = g.filled context' := by
  cases g with
  | text s => rfl
  | field path => rw [filled, filled, h path rfl]

end Segment

namespace Template

variable {name source : String} {segments : List Segment} {t : Template} {context : Data}

theorem fields_text (name s : String) (segments : List Segment) :
    (Template.mk name (.text s :: segments)).fields = (Template.mk name segments).fields := rfl

theorem fields_field (name : String) (path : List String) (segments : List Segment) :
    (Template.mk name (.field path :: segments)).fields =
      ".".intercalate path :: (Template.mk name segments).fields := rfl

/-- The first listed path that does not lead to a scalar is the error; if there is none, every
segment is filled. -/
theorem render_eq_of_proper (h : ∀ g ∈ segments, g.IsProper) (name : String) (context : Data) :
    (Template.mk name segments).render context =
      match (Template.mk name segments).fields.find? fun path =>
        (context.scalarAt? path).isNone with
      | some path => .error (.unresolved name path)
      | none => .ok (String.join (segments.map (Segment.filled context))) := by
  induction segments with
  | nil => rfl
  | cons g rest ih =>
    obtain ⟨hg, hrest⟩ := List.forall_mem_cons.1 h
    rw [render_cons, ih hrest]
    cases g with
    | text s =>
      rw [fields_text, Segment.render]
      cases (Template.mk name rest).fields.find? fun path => (context.scalarAt? path).isNone with
      | some path => rfl
      | none => exact congrArg Except.ok String.join_cons.symm
    | field path =>
      rw [fields_field, Segment.render_field hg]
      cases hscalar : context.scalarAt? (".".intercalate path) with
      | none => rw [List.find?_cons_of_pos (by rw [hscalar]; rfl)]; rfl
      | some s =>
        rw [List.find?_cons_of_neg (by rw [hscalar]; simp)]
        cases (Template.mk name rest).fields.find? fun path => (context.scalarAt? path).isNone with
        | some path => rfl
        | none =>
          have hfilled : (Segment.field path).filled context = s := by
            rw [Segment.filled, hscalar]
            rfl
          rw [List.map_cons, String.join_cons, hfilled]
          rfl

theorem proper_of_parse (h : parse name source = .ok t) :
    t.name = name ∧ ∀ g ∈ t.segments, g.IsProper := by
  obtain ⟨pieces, hpieces, rfl⟩ := parse_eq_ok_iff.1 h
  exact ⟨rfl, hpieces.normal.proper⟩

theorem render_eq_of_parse (h : parse name source = .ok t) (context : Data) :
    t.render context =
      match t.fields.find? fun path => (context.scalarAt? path).isNone with
      | some path => .error (.unresolved name path)
      | none => .ok (String.join (t.segments.map (Segment.filled context))) := by
  obtain ⟨rfl, hproper⟩ := proper_of_parse h
  exact render_eq_of_proper hproper t.name context

theorem exists_render_iff (h : parse name source = .ok t) (context : Data) :
    (∃ out, t.render context = .ok out) ↔
      ∀ path ∈ t.fields, (context.scalarAt? path).isSome = true := by
  rw [render_eq_of_parse h]
  cases hfind : t.fields.find? fun path => (context.scalarAt? path).isNone with
  | some path =>
    refine iff_of_false (fun ⟨_, hok⟩ => nomatch hok) fun hall => ?_
    have hnone : context.scalarAt? path = none :=
      Option.isNone_iff_eq_none.1 (by simpa using List.find?_some hfind)
    have hsome := hall path (List.mem_of_find?_eq_some hfind)
    rw [hnone] at hsome
    cases hsome
  | none =>
    refine iff_of_true ⟨_, rfl⟩ fun path hpath => ?_
    have hnot := List.find?_eq_none.1 hfind path hpath
    rwa [Bool.not_eq_true, Option.isNone_eq_false_iff] at hnot

/-- What is listed are the paths of the actions. -/
theorem mem_fields_iff {field : String} :
    field ∈ t.fields ↔ ∃ path, .field path ∈ t.segments ∧ field = ".".intercalate path := by
  constructor
  · intro h
    obtain ⟨g, hg, hpath⟩ := List.mem_filterMap.1 h
    cases g with
    | text s => cases hpath
    | field path => exact ⟨path, hg, (Option.some.inj hpath).symm⟩
  · rintro ⟨path, hpath, rfl⟩
    exact List.mem_filterMap.2 ⟨_, hpath, rfl⟩

theorem mem_fields_of_mem {path : List String} (h : .field path ∈ t.segments) :
    ".".intercalate path ∈ t.fields := mem_fields_iff.2 ⟨path, h, rfl⟩

/-- Rendering does not tell contexts apart that agree on the listed paths. -/
theorem render_congr (h : parse name source = .ok t) {context context' : Data}
    (hagree : Data.AgreeOn t.fields context context') :
    t.render context = t.render context' := by
  have hfind : (t.fields.find? fun path => (context.scalarAt? path).isNone) =
      t.fields.find? fun path => (context'.scalarAt? path).isNone :=
    List.find?_congr fun path hpath => by rw [hagree path hpath]
  have hfilled : t.segments.map (Segment.filled context) =
      t.segments.map (Segment.filled context') :=
    List.map_congr_left fun g hg => Segment.filled_congr fun path hpath =>
      hagree _ (mem_fields_of_mem (hpath ▸ hg))
  rw [render_eq_of_parse h, render_eq_of_parse h, hfind, hfilled]

end Template

namespace TemplateSet

variable {set : TemplateSet}

/-- The paths that the templates of a name list, for the key and for the value. -/
def listedFields (set : TemplateSet) (name : String) : List String :=
  match set.templates.get? name with
  | some t => t.key.fields ++ t.value.fields
  | none => []

/-- A set of templates that were compiled from sources. -/
def Compiled (set : TemplateSet) : Prop :=
  ∀ name t, set.templates.get? name = some t → ∃ source, KeyTemplate.compile name source = .ok t

theorem Compiled.addAll {set' : TemplateSet} {sources : List (String × String)}
    (hset : set.Compiled) (h : set.addAll sources = .ok set') : set'.Compiled := by
  induction sources generalizing set with
  | nil =>
    cases h
    exact hset
  | cons p rest ih =>
    obtain ⟨t, ht, hrest⟩ := Tree.exists_of_bind_eq_ok h
    refine ih (fun name t' hget => ?_) hrest
    rw [OrderedMap.get?_insert] at hget
    split at hget
    · rename_i hname
      cases hget
      exact ⟨p.2, hname ▸ ht⟩
    · exact hset name t' hget

/-- The two parts of a template of the set, and its name. -/
theorem Compiled.parts (h : set.Compiled) {name : String} {t : KeyTemplate}
    (hget : set.templates.get? name = some t) :
    (∃ body, Template.parse (KeyTemplate.partName name KeyTemplate.keyName) body = .ok t.key) ∧
      (∃ body, Template.parse (KeyTemplate.partName name KeyTemplate.valueName) body =
        .ok t.value) ∧ t.name = name := by
  obtain ⟨source, hsource⟩ := h name t hget
  obtain ⟨keyBody, valueBody, -, hkey, hvalue, hname⟩ := KeyTemplate.compile_eq_ok_iff.1 hsource
  exact ⟨⟨keyBody, hkey⟩, ⟨valueBody, hvalue⟩, hname⟩

theorem compiled_of_compile {sources : List (String × String)}
    (h : compile sources = .ok set) : set.Compiled :=
  Compiled.addAll (fun _ _ hget => by rw [OrderedMap.get?_empty] at hget; cases hget) h

theorem deriveFields_of_get? {name : String} {t : KeyTemplate}
    (hget : set.templates.get? name = some t) (fields : List (String × Data)) :
    set.deriveFields name (.table fields) = (do
      let key ← t.key.render (.table fields)
      let value ← t.value.render (.table fields)
      Except.ok (key, value)) := by
  rw [deriveFields, hget]

/-- What a compiled set derives depends on the listed fields only. -/
theorem Compiled.deriveFields_congr (h : set.Compiled) {name : String}
    {fields fields' : List (String × Data)}
    (hagree : Data.AgreeOn (set.listedFields name) (.table fields) (.table fields')) :
    set.deriveFields name (.table fields) = set.deriveFields name (.table fields') := by
  rw [listedFields] at hagree
  cases hget : set.templates.get? name with
  | none => rw [deriveFields, deriveFields, hget]
  | some t =>
    rw [hget] at hagree
    obtain ⟨⟨keyBody, hkey⟩, ⟨valueBody, hvalue⟩, -⟩ := h.parts hget
    have hkeys := Template.render_congr hkey (hagree.mono (List.subset_append_left _ _))
    have hvalues := Template.render_congr hvalue (hagree.mono (List.subset_append_right _ _))
    rw [deriveFields_of_get? hget, deriveFields_of_get? hget, hkeys, hvalues]

/-- Rendering reads the listed paths only: it succeeds exactly if all of them lead to scalars,
then fills the segments with these, and else names the first path that does not; contexts that
agree on these paths give the same. So does deriving from a compiled set of templates. -/
theorem reads_listed_fields :
    (∀ name source t, Template.parse name source = .ok t →
      (∀ context, (∃ out, t.render context = .ok out) ↔
        ∀ path ∈ t.fields, (context.scalarAt? path).isSome = true) ∧
      (∀ context, t.render context =
        match t.fields.find? fun path => (context.scalarAt? path).isNone with
        | some path => .error (.unresolved name path)
        | none => .ok (String.join (t.segments.map (Segment.filled context)))) ∧
      (∀ context context', Data.AgreeOn t.fields context context' →
        t.render context = t.render context')) ∧
    (∀ sources set, compile sources = .ok set → ∀ name fields fields',
      Data.AgreeOn (set.listedFields name) (.table fields) (.table fields') →
      set.deriveFields name (.table fields) = set.deriveFields name (.table fields')) :=
  ⟨fun _ _ _ h => ⟨fun context => Template.exists_render_iff h context,
      fun context => Template.render_eq_of_parse h context,
      fun _ _ hagree => Template.render_congr h hagree⟩,
    fun _ _ h _ _ _ hagree => (compiled_of_compile h).deriveFields_congr hagree⟩

/-- A field that no template lists counts neither for a template nor for an entry. -/
theorem reads_listed_fields_unlisted :
    let t : Template := ⟨"t", [.field ["a", "b"], .text ":", .field ["c"]]⟩
    let inner : Data := .table [("b", .text "\x7b\x7b.c\x7d\x7d")]
    let release : List (String × Data) :=
      [("Domain", .text "d"), ("Service", .text "s"), ("Version", .text "v"), ("Image", .text "i")]
    Template.parse "t" "\x7b\x7b.a.b\x7d\x7d:\x7b\x7b.c\x7d\x7d" = .ok t ∧
      (∃ out, t.render (.table [("a", inner), ("c", .nat 1)]) = .ok out) ∧
      t.render (.table [("a", inner), ("c", .nat 1)]) =
        t.render (.table [("c", .text "1"), ("d", .null), ("a", inner)]) ∧
      compile (standardSources.override .empty).toList = .ok standard ∧
      standard.deriveFields "release" (.table release) =
        standard.deriveFields "release" (.table (("Count", .nat 2) :: release)) := by
  intro t inner release
  have ht : Template.parse "t" "\x7b\x7b.a.b\x7d\x7d:\x7b\x7b.c\x7d\x7d" = .ok t :=
    eq_ok_of_toOption (by decide +kernel)
  have hset : compile (standardSources.override .empty).toList = .ok standard :=
    (withOverrides_eq_compile .empty).symm
  obtain ⟨hexists, -, hagree⟩ := reads_listed_fields.1 _ _ _ ht
  exact ⟨ht, (hexists _).2 (by decide +kernel), hagree _ _ (by decide +kernel), hset,
    reads_listed_fields.2 _ _ hset _ _ _ (by decide +kernel)⟩

end TemplateSet

end Coordination
