import Coordination.Namespace.Standard
import Coordination.Proofs.OrderedMap
import Coordination.Proofs.Template.Sections

/-!
# Sets of sources

A set of sources compiles exactly if each of them does. The standard templates have sources
too, and these compile to them. So templates in place of the standard ones, or besides them,
are what the sources of both compile to, and they are accepted exactly if all of these are.
-/

namespace Coordination

namespace KeyTemplate

/-- The source of a key template: a block for the key, and one for the value below it. -/
def source (t : KeyTemplate) : String :=
  String.ofList (Section.source ⟨keyName, t.key.source⟩ ++ '\n' :: List.replicate 11 ' ' ++
    Section.source ⟨valueName, t.value.source⟩)

/-- A key template that is what its source compiles to. -/
structure Normal (t : KeyTemplate) : Prop where
  key_name : t.key.name = partName t.name keyName
  value_name : t.value.name = partName t.name valueName
  key : Segment.Normal t.key.segments
  value : Segment.Normal t.value.segments
  key_plain : ¬ Section.endMark <:+: t.key.segments.flatMap Segment.source
  value_plain : ¬ Section.endMark <:+: t.value.segments.flatMap Segment.source

instance (t : KeyTemplate) : Decidable t.Normal :=
  decidable_of_iff (t.key.name = partName t.name keyName ∧
      t.value.name = partName t.name valueName ∧
      Segment.Normal t.key.segments ∧ Segment.Normal t.value.segments ∧
      (¬ Section.endMark <:+: t.key.segments.flatMap Segment.source) ∧
      ¬ Section.endMark <:+: t.value.segments.flatMap Segment.source)
    ⟨fun h => ⟨h.1, h.2.1, h.2.2.1, h.2.2.2.1, h.2.2.2.2.1, h.2.2.2.2.2⟩,
      fun h => ⟨h.key_name, h.value_name, h.key, h.value, h.key_plain, h.value_plain⟩⟩

theorem printable_part {part : String} (hnamed : part ≠ "")
    (htitle : ¬ Segment.closing <:+: part.toList) {t : Template}
    (hplain : ¬ Section.endMark <:+: t.segments.flatMap Segment.source) :
    Section.Printable ⟨part, t.source⟩ := by
  refine ⟨hnamed, htitle, ?_⟩
  rw [Template.source, String.toList_ofList]
  exact hplain

theorem Normal.compile_source {t : KeyTemplate} (h : t.Normal) :
    compile t.name t.source = .ok t := by
  have hkey : Section.Printable ⟨keyName, t.key.source⟩ :=
    printable_part (by decide) (by decide) h.key_plain
  have hvalue : Section.Printable ⟨valueName, t.value.source⟩ :=
    printable_part (by decide) (by decide) h.value_plain
  have hblocks : Section.Blocks [⟨keyName, t.key.source⟩, ⟨valueName, t.value.source⟩]
      t.source.toList := by
    rw [source, String.toList_ofList]
    have hgap : Text.Gap ('\n' :: List.replicate 11 ' ') := by decide
    have hnil : Text.Gap [] := by decide
    have hrest := Section.Blocks.cons hgap hvalue.written_source (.nil hnil)
    have hboth := Section.Blocks.cons hnil hkey.written_source hrest
    rwa [List.nil_append, List.append_nil, ← List.append_assoc] at hboth
  exact compile_eq_ok_iff.2 ⟨_, _, Or.inl hblocks,
    h.key_name ▸ Template.parse_printed_of_normal h.key,
    h.value_name ▸ Template.parse_printed_of_normal h.value, rfl⟩

end KeyTemplate

namespace TemplateSet

variable {set : TemplateSet} {sources : List (String × String)}
  {compiled : List (String × KeyTemplate)}

/-! ## Compiling many sources -/

/-- Compile a source, and keep its name. -/
def compileNamed (p : String × String) : Except TemplateError (String × KeyTemplate) :=
  (KeyTemplate.compile p.1 p.2).map (p.1, ·)

theorem compileNamed_eq_ok_iff {p : String × String} {q : String × KeyTemplate} :
    compileNamed p = .ok q ↔ KeyTemplate.compile p.1 p.2 = .ok q.2 ∧ q.1 = p.1 := by
  obtain ⟨name, t⟩ := q
  rw [compileNamed]
  cases KeyTemplate.compile p.1 p.2 with
  | error fault => simp [Except.map]
  | ok t' => simp [Except.map, eq_comm, and_comm]

/-- To add sources is to compile all of them and to insert what they compile to. -/
theorem addAll_eq (set : TemplateSet) (sources : List (String × String)) :
    set.addAll sources =
      (sources.mapM compileNamed).map fun compiled => ⟨set.templates.insertAll compiled⟩ := by
  induction sources generalizing set with
  | nil => rfl
  | cons p rest ih =>
    rw [addAll, List.mapM_cons, compileNamed]
    cases KeyTemplate.compile p.1 p.2 with
    | error fault => rfl
    | ok t =>
      show (TemplateSet.mk (set.templates.insert p.1 t)).addAll rest = _
      rw [ih]
      cases rest.mapM compileNamed <;> rfl

/-- Sources compile together if each of them compiles. -/
theorem mapM_eq_ok_iff : sources.mapM compileNamed = .ok compiled ↔
    List.Forall₂ (fun p q => compileNamed p = .ok q) sources compiled := by
  induction sources generalizing compiled with
  | nil => cases compiled <;> simp [pure, Except.pure]
  | cons p rest ih =>
    rw [List.mapM_cons, bind_eq_ok_iff]
    constructor
    · rintro ⟨q, hq, hrest⟩
      obtain ⟨more, hmore, hcompiled⟩ := Tree.exists_of_bind_eq_ok hrest
      cases hcompiled
      exact .cons hq (ih.1 hmore)
    · rintro (_ | ⟨hq, hmore⟩)
      exact ⟨_, hq, bind_eq_ok_iff.2 ⟨_, ih.2 hmore, rfl⟩⟩

theorem map_fst_of_mapM (h : sources.mapM compileNamed = .ok compiled) :
    compiled.map Prod.fst = sources.map Prod.fst := by
  have hall := mapM_eq_ok_iff.1 h
  clear h
  induction hall with
  | nil => rfl
  | cons hq _ ih => rw [List.map_cons, List.map_cons, ih, (compileNamed_eq_ok_iff.1 hq).2]

theorem exists_source_of_mem (h : sources.mapM compileNamed = .ok compiled)
    {q : String × KeyTemplate} (hq : q ∈ compiled) : ∃ p ∈ sources, compileNamed p = .ok q := by
  have hall := mapM_eq_ok_iff.1 h
  clear h
  induction hall with
  | nil => cases hq
  | cons hp _ ih =>
    rcases List.mem_cons.1 hq with rfl | hq
    · exact ⟨_, List.mem_cons_self, hp⟩
    · obtain ⟨p, hmem, hpq⟩ := ih hq
      exact ⟨p, List.mem_cons_of_mem _ hmem, hpq⟩

theorem exists_mapM_iff : (∃ compiled, sources.mapM compileNamed = .ok compiled) ↔
    ∀ p ∈ sources, ∃ t, KeyTemplate.compile p.1 p.2 = .ok t := by
  induction sources with
  | nil => exact iff_of_true ⟨[], rfl⟩ fun _ hp => nomatch hp
  | cons p rest ih =>
    rw [List.forall_mem_cons, ← ih]
    constructor
    · rintro ⟨compiled, h⟩
      rcases mapM_eq_ok_iff.1 h with _ | ⟨hq, hmore⟩
      exact ⟨⟨_, (compileNamed_eq_ok_iff.1 hq).1⟩, _, mapM_eq_ok_iff.2 hmore⟩
    · rintro ⟨⟨t, ht⟩, compiled, hcompiled⟩
      have hp : compileNamed p = .ok (p.1, t) := compileNamed_eq_ok_iff.2 ⟨ht, rfl⟩
      exact ⟨(p.1, t) :: compiled, mapM_eq_ok_iff.2 (.cons hp (mapM_eq_ok_iff.1 hcompiled))⟩

theorem exists_addAll_iff : (∃ set', set.addAll sources = .ok set') ↔
    ∀ p ∈ sources, ∃ t, KeyTemplate.compile p.1 p.2 = .ok t := by
  rw [← exists_mapM_iff, addAll_eq]
  cases sources.mapM compileNamed with
  | error fault => simp [Except.map]
  | ok compiled => exact iff_of_true ⟨_, rfl⟩ ⟨_, rfl⟩

/-- Sources that are known to compile do not count for the others. -/
theorem mapM_filter {q : String → Bool}
    (h : ∀ p ∈ sources, q p.1 = false → ∃ t, KeyTemplate.compile p.1 p.2 = .ok t) :
    (sources.filter fun p => q p.1).mapM compileNamed =
      (sources.mapM compileNamed).map fun compiled => compiled.filter fun p => q p.1 := by
  induction sources with
  | nil => rfl
  | cons p rest ih =>
    obtain ⟨hp, hrest⟩ := List.forall_mem_cons.1 h
    rw [List.mapM_cons, compileNamed]
    cases hq : q p.1 with
    | true =>
      rw [List.filter_cons_of_pos (by exact hq), List.mapM_cons, ih hrest, compileNamed]
      cases KeyTemplate.compile p.1 p.2 with
      | error fault => rfl
      | ok t =>
        cases rest.mapM compileNamed with
        | error fault => rfl
        | ok compiled => exact congrArg Except.ok (List.filter_cons_of_pos (by exact hq)).symm
    | false =>
      obtain ⟨t, ht⟩ := hp hq
      rw [List.filter_cons_of_neg (by simp [hq]), ih hrest, ht]
      cases rest.mapM compileNamed with
      | error fault => rfl
      | ok compiled => exact congrArg Except.ok (List.filter_cons_of_neg (by simp [hq])).symm

/-! ## The standard sources -/

theorem normal_of_mem_standardList : ∀ t ∈ standardList, t.Normal := by
  decide +kernel

/-- The sources of the standard templates. -/
def standardSources : OrderedMap String := standard.templates.mapWithName fun _ t => t.source

theorem mem_standardList_of_get? {name : String} {t : KeyTemplate}
    (h : standard.templates.get? name = some t) : t ∈ standardList ∧ t.name = name := by
  obtain ⟨t', ht', hpair⟩ := List.mem_map.1 (OrderedMap.get?_eq_some_iff.1 h)
  cases hpair
  exact ⟨ht', rfl⟩

theorem compile_of_get?_standardSources {name source : String}
    (h : standardSources.get? name = some source) : ∃ t,
      standard.templates.get? name = some t ∧ KeyTemplate.compile name source = .ok t := by
  rw [standardSources, OrderedMap.get?_mapWithName] at h
  obtain ⟨t, ht, rfl⟩ := Option.map_eq_some_iff.1 h
  obtain ⟨hmem, rfl⟩ := mem_standardList_of_get? ht
  exact ⟨t, ht, (normal_of_mem_standardList t hmem).compile_source⟩

example : standardSources.get? "conf-base-root" = some
    ("\x7b\x7bdefine \"KEY\"\x7d\x7d" ++
      "/\x7b\x7b.Kind\x7d\x7d/base/\x7b\x7b.DomainClass\x7d\x7d/\x7b\x7b.Service\x7d\x7d" ++
      "\x7b\x7bend\x7d\x7d\n           " ++
      "\x7b\x7bdefine \"VALUE\"\x7d\x7d\x7b\x7bend\x7d\x7d") := by
  decide +kernel

/-! ## Overrides -/

variable {overrides : OrderedMap String}

/-- The overrides are among the sources that they give together with the standard ones. -/
theorem toList_override_filter (overrides : OrderedMap String) :
    (standardSources.override overrides).toList.filter (fun p => overrides.contains p.1) =
      overrides.toList := by
  refine OrderedMap.eq_of_ascending_of_mem_iff
    ((standardSources.override overrides).ascending.filter _) overrides.ascending fun p => ?_
  rw [List.mem_filter, ← OrderedMap.get?_eq_some_iff, ← OrderedMap.get?_eq_some_iff,
    OrderedMap.get?_override, OrderedMap.contains]
  cases overrides.get? p.1 with
  | some source => simp
  | none => simp

/-- A source that is no override compiles to the standard template of its name. -/
theorem compile_of_not_contains {p : String × String}
    (h : p ∈ (standardSources.override overrides).toList)
    (hp : overrides.contains p.1 = false) : ∃ t,
      standard.templates.get? p.1 = some t ∧ KeyTemplate.compile p.1 p.2 = .ok t := by
  have hget := OrderedMap.get?_eq_some_iff.2 h
  rw [OrderedMap.get?_override, OrderedMap.contains_eq_false_iff.1 hp] at hget
  exact compile_of_get?_standardSources hget

theorem not_mem_filter {name : String} (h : overrides.contains name = false) :
    name ∉ (compiled.filter fun q => overrides.contains q.1).map Prod.fst := by
  intro hmem
  obtain ⟨q, hq, rfl⟩ := List.mem_map.1 hmem
  rw [(List.mem_filter.1 hq).2] at h
  cases h

/-- What the overrides put in place of the standard templates is what all sources put into an
empty set. -/
theorem insertAll_filter_compiled
    (h : (standardSources.override overrides).toList.mapM compileNamed = .ok compiled) :
    standard.templates.insertAll (compiled.filter fun q => overrides.contains q.1) =
      OrderedMap.empty.insertAll compiled := by
  have hkeys : compiled.map Prod.fst = (standardSources.override overrides).keys :=
    map_fst_of_mapM h
  have hnodup : (compiled.map Prod.fst).Nodup := hkeys ▸ OrderedMap.nodup_keys _
  refine OrderedMap.ext_get? fun name => ?_
  by_cases hmem : name ∈ compiled.map Prod.fst
  · obtain ⟨⟨name, t⟩, hq, rfl⟩ := List.mem_map.1 hmem
    rw [OrderedMap.get?_insertAll_of_mem hnodup hq]
    cases hname : overrides.contains name with
    | true =>
      exact OrderedMap.get?_insertAll_of_mem ((List.filter_sublist.map _).nodup hnodup)
        (List.mem_filter.2 ⟨hq, hname⟩)
    | false =>
      rw [OrderedMap.get?_insertAll_of_not_mem (not_mem_filter hname)]
      obtain ⟨p, hp, hpq⟩ := exists_source_of_mem h hq
      obtain ⟨ht, rfl⟩ := compileNamed_eq_ok_iff.1 hpq
      obtain ⟨t', ht', hcompile⟩ := compile_of_not_contains hp hname
      rw [ht', Except.ok.inj (hcompile.symm.trans ht)]
  · have hnone : (standardSources.override overrides).get? name = none := by
      rw [hkeys, OrderedMap.mem_keys] at hmem
      exact Option.not_isSome_iff_eq_none.1 hmem
    rw [OrderedMap.get?_override, Option.or_eq_none_iff] at hnone
    have hname : overrides.contains name = false := OrderedMap.contains_eq_false_iff.2 hnone.1
    rw [OrderedMap.get?_insertAll_of_not_mem hmem,
      OrderedMap.get?_insertAll_of_not_mem (not_mem_filter hname), OrderedMap.get?_empty]
    exact Option.map_eq_none_iff.1 ((OrderedMap.get?_mapWithName _ _ _).symm.trans hnone.2)

/-- The standard templates with others in place of them, or besides them, are what the sources
of all of these compile to. -/
theorem withOverrides_eq_compile (overrides : OrderedMap String) :
    withOverrides overrides = compile (standardSources.override overrides).toList := by
  have hcompiles : ∀ p ∈ (standardSources.override overrides).toList,
      overrides.contains p.1 = false → ∃ t, KeyTemplate.compile p.1 p.2 = .ok t :=
    fun p hp hnot => (compile_of_not_contains hp hnot).imp fun _ ht => ht.2
  have hfilter := mapM_filter hcompiles
  rw [toList_override_filter] at hfilter
  rw [withOverrides, compile, addAll_eq, addAll_eq, hfilter]
  cases hall : (standardSources.override overrides).toList.mapM compileNamed with
  | error fault => rfl
  | ok compiled =>
    exact congrArg (fun templates => Except.ok (TemplateSet.mk templates))
      (insertAll_filter_compiled hall)

/-! ## Which sources are accepted -/

/-- A source compiles to a key template exactly if it consists of a block for the key and one
for the value, whose bodies compile to the templates of these; blocks that are printed with any
blanks around them are read back; a set of sources compiles exactly if each of them does, and
so do the standard sources with others in place of them or besides them. -/
theorem accepted_exactly :
    (∀ name source t, KeyTemplate.compile name source = .ok t ↔ ∃ keyBody valueBody,
      (Section.Blocks [⟨KeyTemplate.keyName, keyBody⟩, ⟨KeyTemplate.valueName, valueBody⟩]
          source.toList ∨
        Section.Blocks [⟨KeyTemplate.valueName, valueBody⟩, ⟨KeyTemplate.keyName, keyBody⟩]
          source.toList) ∧
      Template.parse (KeyTemplate.partName name KeyTemplate.keyName) keyBody = .ok t.key ∧
      Template.parse (KeyTemplate.partName name KeyTemplate.valueName) valueBody = .ok t.value ∧
      t.name = name) ∧
    (∀ template (blocks : List (List Char × Section)) last,
      (∀ block ∈ blocks, Text.Gap block.1 ∧ block.2.Printable) → Text.Gap last →
      Section.parse template
        (String.ofList (blocks.flatMap (fun block => block.1 ++ block.2.source) ++ last)) =
          .ok (blocks.map Prod.snd)) ∧
    (∀ sources, (∃ set, compile sources = .ok set) ↔
      ∀ p ∈ sources, ∃ t, KeyTemplate.compile p.1 p.2 = .ok t) ∧
    (∀ overrides, (∃ set, withOverrides overrides = .ok set) ↔
      ∀ p ∈ (standardSources.override overrides).toList,
        ∃ t, KeyTemplate.compile p.1 p.2 = .ok t) := by
  refine ⟨fun _ _ _ => KeyTemplate.compile_eq_ok_iff, fun template blocks last hblocks hlast => ?_,
    fun _ => exists_addAll_iff, fun overrides => ?_⟩
  · rw [Section.parse_eq_ok_iff, String.toList_ofList]
    exact Section.blocks_printed hblocks hlast
  · rw [withOverrides_eq_compile]
    exact exists_addAll_iff

/-- Two blocks with braces and quotes that end neither the names nor the bodies. -/
def twoBlocks : List (List Char × Section) :=
  [([' '], ⟨"KEY", "/a\x7b\x7bend\x7d"⟩), (['\n', '\t'], ⟨"\"\x7d", "\x7b\x7b.b\x7d\x7d"⟩)]

theorem accepted_exactly_two_blocks :
    (∀ block ∈ twoBlocks, Text.Gap block.1 ∧ block.2.Printable) ∧ Text.Gap ['\n'] ∧
      Section.parse "t"
        (String.ofList (twoBlocks.flatMap (fun block => block.1 ++ block.2.source) ++ ['\n'])) =
          .ok [⟨"KEY", "/a\x7b\x7bend\x7d"⟩, ⟨"\"\x7d", "\x7b\x7b.b\x7d\x7d"⟩] := by
  have hblocks : ∀ block ∈ twoBlocks, Text.Gap block.1 ∧ block.2.Printable := by decide
  have hlast : Text.Gap ['\n'] := by decide
  exact ⟨hblocks, hlast, accepted_exactly.2.1 "t" twoBlocks ['\n'] hblocks hlast⟩

end TemplateSet

end Coordination
