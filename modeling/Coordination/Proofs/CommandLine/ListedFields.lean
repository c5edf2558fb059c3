import Coordination.Proofs.CommandLine.Listing
import Coordination.Proofs.Template.Assigned

/-!
# Deriving with the listed fields

Given a string for each field that the line of a template shows, in any order and any number
of times, the tool derives with these strings: they make up one flat table, so the path and the
payload come out with the strings in place of the actions if no field is dotted. A dotted field
asks for a table inside the table, which no argument can give; it is the error then.
-/

namespace Coordination.CommandLine

/-! ## Arguments that are read back -/

/-- The arguments that derive an entry, with an option for each field. -/
def keysArgs (name : String) (fields : List String) (config : Option String) : List String :=
  "keys" :: (fields.flatMap (fun field => ["--field", field]) ++
    (config.toList.map ("--config=" ++ ·) ++ ["--", name]))

namespace Given

variable {accepted : Accepted}

theorem readFrom_field (hfield : accepted.field = true) (g : Given) {field : String}
    (hplain : looksLikeOption field = false) (rest : List String) :
    readFrom accepted g ("--field" :: field :: rest) =
      readFrom accepted { g with fields := g.fields ++ [field] } rest := by
  have hoption : looksLikeOption "--field" = true := by decide
  have hsplit : splitOption "--field" = ("--field", none) := by decide
  rw [readFrom.eq_def]
  simp only [hoption, hsplit, hplain, setOption, hfield]
  rfl

theorem readFrom_fields (hfield : accepted.field = true) (g : Given) {fields : List String}
    (hplain : ∀ field ∈ fields, looksLikeOption field = false) (rest : List String) :
    readFrom accepted g (fields.flatMap (fun field => ["--field", field]) ++ rest) =
      readFrom accepted { g with fields := g.fields ++ fields } rest := by
  induction fields generalizing g with
  | nil => rw [List.append_nil]; rfl
  | cons field fields ih =>
    obtain ⟨hhead, htail⟩ := List.forall_mem_cons.1 hplain
    show readFrom accepted g ("--field" :: field :: (fields.flatMap _ ++ rest)) = _
    rw [readFrom_field hfield g hhead, ih _ htail]
    simp only [List.append_assoc, List.singleton_append]

theorem readFrom_config (hconfig : accepted.config = true) (g : Given) (hnone : g.config = none)
    {path : String} (hpath : path ≠ "") (rest : List String) :
    readFrom accepted g (("--config=" ++ path) :: rest) =
      readFrom accepted { g with config := some path } rest := by
  have hlist : ("--config=" ++ path).toList = "--config".toList ++ '=' :: path.toList := by
    rw [String.toList_append]
    rfl
  -- it has an equals sign, so it is none of the other arguments
  have hother : ∀ arg : String, '=' ∉ arg.toList → "--config=" ++ path ≠ arg := by
    rintro arg harg rfl
    rw [hlist] at harg
    exact harg (List.mem_append_right _ List.mem_cons_self)
  have hsplit : splitOption ("--config=" ++ path) = ("--config", some path) := by
    rw [splitOption, hlist, Text.splitFirst_append (by decide)]
    simp only [String.ofList_toList]
  have hoption : looksLikeOption ("--config=" ++ path) = true := by
    rw [looksLikeOption, hlist, Bool.and_eq_true, decide_eq_true_eq, decide_eq_true_eq]
    exact ⟨rfl, hother "-" (by decide)⟩
  have hset : setOption accepted "--config" path g = some { g with config := some path } := by
    rw [setOption, if_neg fun h => absurd h.1 (by decide), if_pos ⟨rfl, hconfig, hnone, hpath⟩]
  rw [readFrom.eq_def]
  simp only [if_neg (hother "--" (by decide)), if_neg (not_or_intro (hother "-h" (by decide))
    (hother "--help" (by decide))), hoption, hsplit, hset]
  rfl

theorem readFrom_operand {g : Given} (hroom : g.operands.length < accepted.operands)
    (hempty : accepted.emptyOperand = true) (name : String) :
    readFrom accepted g ["--", name] = some { g with operands := g.operands ++ [name] } := by
  show (addOperand accepted name g).bind some = _
  rw [addOperand, if_pos ⟨hroom, Or.inl hempty⟩]
  rfl

end Given

theorem parse?_keysArgs (name : String) {fields : List String} {config : Option String}
    (hplain : ∀ field ∈ fields, looksLikeOption field = false) (hconfig : config ≠ some "") :
    Command.parse? (keysArgs name fields config) = some (.keys name fields config) := by
  have hread : readGiven ⟨true, true, 1, true⟩
      (fields.flatMap (fun field => ["--field", field]) ++
        (config.toList.map ("--config=" ++ ·) ++ ["--", name])) =
        some ⟨[name], fields, config, false⟩ := by
    rw [readGiven, Given.readFrom_fields rfl _ hplain]
    cases config with
    | none =>
      refine Given.readFrom_operand ?_ rfl name
      exact Nat.one_pos
    | some path =>
      show Given.readFrom _ _ (("--config=" ++ path) :: ["--", name]) = _
      rw [Given.readFrom_config rfl _ rfl fun hpath => hconfig (congrArg some hpath)]
      refine Given.readFrom_operand ?_ rfl name
      exact Nat.one_pos
  show (readGiven _ _).bind _ = _
  rw [hread]
  rfl

/-! ## Fields that are assigned -/

/-- The fields with their strings behind equals signs. -/
def assignments (σ : String → String) (fields : List String) : List String :=
  fields.map fun field => field ++ "=" ++ σ field

section Assignments

variable {σ : String → String} {field : String} {fields : List String}

theorem toList_assignment (field value : String) :
    (field ++ "=" ++ value).toList = field.toList ++ '=' :: value.toList := by
  rw [String.toList_append, String.toList_append, List.append_assoc]
  rfl

theorem looksLikeOption_assignment (h : Segment.IsField field) (value : String) :
    looksLikeOption (field ++ "=" ++ value) = false := by
  have hhead : ∀ c, (field ++ "=" ++ value).toList.head? = some c → c ∈ field.toList := by
    intro c hc
    rw [toList_assignment] at hc
    cases hchars : field.toList with
    | nil => exact absurd (String.toList_eq_nil_iff.1 hchars) h.ne_empty
    | cons first rest =>
      rw [hchars] at hc
      exact List.mem_cons.2 (Or.inl (Option.some.inj hc).symm)
  rw [looksLikeOption, Bool.and_eq_false_iff, decide_eq_false_iff_not]
  exact Or.inl fun hc => h.not_mem (by decide) (hhead _ hc)

theorem parseField_assignment (h : Segment.IsField field) (value : String) :
    parseField (field ++ "=" ++ value) = .ok (field, .text value) := by
  rw [parseField, toList_assignment, Text.splitFirst_append (h.not_mem (by decide))]
  simp only [String.ofList_toList]

theorem parseFields_assignments (σ : String → String) (h : ∀ f ∈ fields, Segment.IsField f) :
    parseFields (assignments σ fields) =
      .ok (.table (Data.sortFields (fields.map fun f => (f, .text (σ f))))) := by
  have hmap : (assignments σ fields).mapM parseField =
      .ok (fields.map fun f => (f, .text (σ f))) := by
    induction fields with
    | nil => rfl
    | cons f rest ih =>
      obtain ⟨hf, hrest⟩ := List.forall_mem_cons.1 h
      rw [assignments, List.map_cons, List.mapM_cons, parseField_assignment hf, ← assignments,
        ih hrest]
      rfl
  rw [parseFields, hmap]
  rfl

end Assignments

/-! ## What is derived -/

/-- What is printed of a derivation, and the status. -/
def derivationResult (name : String) : Except TemplateError (String × String) → Result
  | .ok (key, value) => ⟨0, lines [key, value], ""⟩
  | .error e => ⟨1, "", (Failure.derivation name e).report⟩

section Derived

variable {set : TemplateSet} {name : String} {t : KeyTemplate}

theorem run_keys {readText : String → Except IoError String} {fields : List String}
    {config : Option String} {args : List String} {entry : Data}
    (hset : loadTemplates readText config = .ok set) (hentry : parseFields fields = .ok entry)
    (hargs : Command.parse? args = some (.keys name fields config)) :
    run readText args = derivationResult name (set.deriveFields name entry) := by
  have hprint : print readText (.keys name fields config) =
      ((set.deriveFields name entry).mapError (Failure.derivation name)).map fun derived =>
        lines [derived.1, derived.2] := by
    rw [print, hset]
    show (parseFields fields >>= _) = _
    rw [hentry]
    show ((set.deriveFields name entry).mapError (Failure.derivation name) >>= _) = _
    cases set.deriveFields name entry with
    | ok derived => rfl
    | error e => rfl
  simp only [run, hargs, hprint]
  cases set.deriveFields name entry with
  | ok derived => rfl
  | error e => rfl

/-- What holds of the line of a template that shows these fields, and of what is derived with
strings for them. -/
structure DerivesListed (set : TemplateSet) (name : String) (t : KeyTemplate)
    (listed : List String) : Prop where
  reads : ∀ field, field ∈ listed ↔ t.Reads field
  once : t.key.fields.Nodup → listed.Nodup
  /-- Any strings, for the fields in any order. -/
  derives : ∀ (σ : String → String) fields, (∀ field, field ∈ fields ↔ field ∈ listed) →
    ∃ outcome, t.Substitutes σ outcome ∧
      (∃ entry, parseFields (assignments σ fields) = .ok entry ∧
        set.deriveFields name entry = outcome) ∧
      (∀ config, config ≠ some "" →
        Command.parse? (keysArgs name (assignments σ fields) config) =
          some (.keys name (assignments σ fields) config)) ∧
      ∀ readText config args, loadTemplates readText config = .ok set →
        Command.parse? args = some (.keys name (assignments σ fields) config) →
        run readText args = derivationResult name outcome

theorem derivesListed_fieldsRead (h : set.Compiled)
    (hget : set.templates.get? name = some t) : DerivesListed set name t (fieldsRead t) := by
  have hshown := (shows_describe h hget).fields
  have hreads : ∀ field, field ∈ fieldsRead t ↔ t.Reads field := fun field =>
    (mem_fieldsRead t field).trans KeyTemplate.reads_iff.symm
  refine ⟨hreads, nodup_fieldsRead, fun σ fields hfields => ?_⟩
  have hfield : ∀ f ∈ fields, Segment.IsField f := fun f hf => hshown f ((hfields f).1 hf)
  have hentry := parseFields_assignments σ hfield
  refine ⟨_, h.deriveFields_of_assigns hget (Data.assigns_sortFields σ fields) fun f hf =>
    (hfields f).2 ((hreads f).2 hf), ⟨_, hentry, rfl⟩, fun config hconfig => ?_,
    fun readText config args hset hargs => run_keys hset hentry hargs⟩
  refine parse?_keysArgs name (fun text htext => ?_) hconfig
  obtain ⟨f, hf, rfl⟩ := List.mem_map.1 htext
  exact looksLikeOption_assignment (hfield f hf) (σ f)

/-- With templates that were accepted, the list has one line for each name, and what a line shows
can be told from it: the fields that the template reads, each of them once if the path reads none
of its fields twice. Given any strings for these fields, in any order, the tool prints the path
and the payload with the strings in place of the actions, unless a field is dotted; then this
is its error. -/
theorem listed_fields_accepted {overrides : OrderedMap String}
    (haccepted : TemplateSet.withOverrides overrides = .ok set)
    (hget : set.templates.get? name = some t) :
    (∀ readText config args, loadTemplates readText config = .ok set →
      Command.parse? args = some (.templates config) →
      run readText args = ⟨0, lines (set.toList.map describe), ""⟩) ∧
    (set.toList.map KeyTemplate.name = set.templates.keys ∧ t ∈ set.toList) ∧
    (∃ listed, Shows (describe t) name listed) ∧
    ∀ listed, Shows (describe t) name listed → DerivesListed set name t listed := by
  have hcompiled : set.Compiled := by
    rw [TemplateSet.withOverrides_eq_compile] at haccepted
    exact TemplateSet.compiled_of_compile haccepted
  have hshows := shows_describe hcompiled hget
  refine ⟨fun readText config args => run_templates,
    ⟨map_name_toList hcompiled, mem_toList hget⟩, ⟨_, hshows⟩, fun listed hlisted => ?_⟩
  rw [hlisted.unique hshows]
  exact derivesListed_fieldsRead hcompiled hget

end Derived

namespace PortTemplate

/-- A source for the place of a port. -/
def source (key value : String) : String :=
  "\x7b\x7bdefine \"KEY\"\x7d\x7d" ++ key ++ "\x7b\x7bend\x7d\x7d" ++
    "\x7b\x7bdefine \"VALUE\"\x7d\x7d" ++ value ++ "\x7b\x7bend\x7d\x7d"

/-- The standard templates with one for the place of a port. -/
def added (t : KeyTemplate) : TemplateSet := ⟨TemplateSet.standard.templates.insert "port" t⟩

/-- A configuration that adds a source. -/
def config (source : String) (_ : String) : Except IoError String :=
  .ok ("[templates]\nport = '" ++ source ++ "'\n")

/-- A source with plain fields. -/
def plainSource : String :=
  source "/\x7b\x7b.Domain\x7d\x7d/\x7b\x7b.Port\x7d\x7d"
    "\x7b\x7b.Port\x7d\x7d@\x7b\x7b.Domain\x7d\x7d"

/-- What it compiles to. -/
def plain : KeyTemplate :=
  .ofSegments "port" [.text "/", .field ["Domain"], .text "/", .field ["Port"]]
    [.field ["Port"], .text "@", .field ["Domain"]]

/-- A source with a field inside a field. -/
def dottedSource : String := source "/\x7b\x7b.Env.PORT\x7d\x7d" ""

/-- What it compiles to. -/
def dotted : KeyTemplate := .ofSegments "port" [.text "/", .field ["Env", "PORT"]] []

/-- A source whose path has a field twice. -/
def repeatedSource : String := source "/\x7b\x7b.Port\x7d\x7d/\x7b\x7b.Port\x7d\x7d" ""

/-- What it compiles to. -/
def repeated : KeyTemplate :=
  .ofSegments "port" [.text "/", .field ["Port"], .text "/", .field ["Port"]] []

/-- A string for each field. -/
def strings (field : String) : String := if field = "Port" then "80=81" else "d"

/-- The fields are given in another order than they are shown in, and one of them twice. -/
theorem derived_from_line :
    Shows (describe plain) "port" ["Domain", "Port"] ∧
      run (config plainSource) ["keys", "port", "--field", "Port=80=81", "--field=Domain=d",
        "--field", "Port=80=81", "--config", "c.toml"] = ⟨0, "/d/80=81\n80=81@d\n", ""⟩ := by
  have haccepted : TemplateSet.withOverrides (.ofList [("port", plainSource)]) =
      .ok (added plain) := eq_ok_of_toOption (by decide +kernel)
  have hget : (added plain).templates.get? "port" = some plain := by decide +kernel
  have hload : loadTemplates (config plainSource) (some "c.toml") = .ok (added plain) :=
    eq_ok_of_toOption (by decide +kernel)
  have hshows : Shows (describe plain) "port" ["Domain", "Port"] := by
    refine ⟨by decide +kernel, fun field hfield => ?_⟩
    rcases List.mem_pair.1 hfield with rfl | rfl
    · exact ⟨["Domain"], by decide, rfl⟩
    · exact ⟨["Port"], by decide, rfl⟩
  obtain ⟨-, -, -, hlisted⟩ := listed_fields_accepted haccepted hget
  obtain ⟨hreads, -, hderives⟩ := hlisted _ hshows
  obtain ⟨outcome, hsubstitutes, -, -, hrun⟩ :=
    hderives strings ["Port", "Domain", "Port"] (by simp)
  have hplain : ∀ field, plain.Reads field → '.' ∉ field.toList := fun field hfield => by
    rcases List.mem_pair.1 ((hreads field).2 hfield) with rfl | rfl <;> decide
  refine ⟨hshows, (hrun (config plainSource) (some "c.toml") _ hload (by decide +kernel)).trans ?_⟩
  rw [hsubstitutes.plain hplain]
  decide +kernel

/-- The line shows a dotted field, and the tool does not put the string that it is given in its
place. A field that the path reads twice is shown twice. -/
theorem dotted_refused_and_repeated_shown_twice :
    (TemplateSet.withOverrides (.ofList [("port", dottedSource)]) = .ok (added dotted) ∧
      loadTemplates (config dottedSource) (some "c.toml") = .ok (added dotted) ∧
      Shows (describe dotted) "port" ["Env.PORT"] ∧
      dotted.key.substituted (fun _ => "1") = "/1" ∧
      run (config dottedSource)
        ["keys", "port", "--field", "Env.PORT=1", "--config", "c.toml"] =
          ⟨1, "", "Error: deriving port\n\nCaused by:\n" ++
            "    template port/KEY: cannot resolve .Env.PORT\n"⟩) ∧
    TemplateSet.withOverrides (.ofList [("port", repeatedSource)]) = .ok (added repeated) ∧
      Shows (describe repeated) "port" ["Port", "Port"] := by
  have hdotted : Shows (describe dotted) "port" ["Env.PORT"] := by
    refine ⟨by decide +kernel, fun field hfield => ?_⟩
    rw [List.mem_singleton.1 hfield]
    exact ⟨["Env", "PORT"], by decide, by decide +kernel⟩
  have hrepeated : Shows (describe repeated) "port" ["Port", "Port"] := by
    refine ⟨by decide +kernel, fun field hfield => ?_⟩
    rw [(List.mem_pair.1 hfield).elim id id]
    exact ⟨["Port"], by decide, rfl⟩
  refine ⟨⟨eq_ok_of_toOption ?_, eq_ok_of_toOption ?_, hdotted, ?_, ?_⟩, eq_ok_of_toOption ?_,
    hrepeated⟩
  all_goals decide +kernel

end PortTemplate

end Coordination.CommandLine
