import Coordination.Proofs.Registry.Creation
import Coordination.Proofs.Template.Letters

/-!
# Templates that keep the store coherent

The template of a directory and that of what stands in it can be replaced one without the
other. They agree where the key of the second goes on, letter by letter, where the key of the
first ends, with a slash and the name. Then what is created is read back, wherever the
directory is placed. The standard templates agree, and still do so when others are replaced;
but nothing makes templates agree that replace them, and where they do not, what was stored
is not found.
-/

namespace Coordination

/-- The key of the second template is the key of the first, a slash and the name. -/
def KeyTemplate.Continues (root entry : KeyTemplate) : Prop :=
  entry.key.letters = root.key.letters ++ [.char '/', .field ["Name"]]

instance (root entry : KeyTemplate) : Decidable (root.Continues entry) :=
  inferInstanceAs (Decidable (_ = _))

theorem KeyTemplate.Continues.spell? {root entry : KeyTemplate} (h : root.Continues entry)
    {fields : List (String × Data)} (more : List (String × Data)) {d name : String}
    (hroot : (Data.table fields).spell? root.key.letters = some d.toList)
    (hname : (Data.table (fields ++ more)).field? "Name" = some (.text name)) :
    (Data.table (fields ++ more)).spell? entry.key.letters = some (d ++ "/" ++ name).toList := by
  have hlast : (Data.table (fields ++ more)).spell? ([.char '/'] ++ [.field ["Name"]]) =
      some (['/'] ++ name.toList) := Data.spell?_append rfl (Data.spell?_field hname)
  have hpath : (d ++ "/" ++ name).toList = d.toList ++ (['/'] ++ name.toList) := by
    rw [String.toList_append, String.toList_append, List.append_assoc]
    rfl
  rw [h, hpath]
  exact Data.spell?_append (Data.spell?_more more hroot) hlast

namespace TemplateSet

/-- The templates of environments and of variables agree, and a variable's value is stored. -/
def EnvCoheres (set : TemplateSet) : Prop :=
  ∃ root entry, set.templates.get? "env-root" = some root ∧
    set.templates.get? "env-entry" = some entry ∧ root.Continues entry ∧
    entry.value.letters = [.field ["Value"]]

/-- The templates of a tier and of its objects agree, and what is to be the value of an object
can be rendered. -/
def TierCoheres (set : TemplateSet) (kind : ConfKind) (scope : Scope) : Prop :=
  ∃ root object, set.templates.get? (Entry.confRoot kind scope).template = some root ∧
    set.templates.get? (Entry.confObject kind scope "").template = some object ∧
    root.Continues object ∧
    ∀ name, ∃ s, (Entry.confObject kind scope name).fields.spell? object.value.letters = some s

variable {set : TemplateSet} {overrides : OrderedMap String}

/-! ## Templates that are not replaced -/

theorem envCoheres_of_kept (h : withOverrides overrides = .ok set)
    (hroot : overrides.get? "env-root" = none) (hentry : overrides.get? "env-entry" = none) :
    set.EnvCoheres := by
  rw [EnvCoheres, get?_withOverrides h hroot, get?_withOverrides h hentry]
  exact ⟨_, _, rfl, rfl, by decide, by decide⟩

theorem tierCoheres_of_kept (h : withOverrides overrides = .ok set) {kind : ConfKind}
    {scope : Scope} (hroot : overrides.get? (Entry.confRoot kind scope).template = none)
    (hobject : overrides.get? (Entry.confObject kind scope "").template = none) :
    set.TierCoheres kind scope := by
  rw [TierCoheres, get?_withOverrides h hroot, get?_withOverrides h hobject]
  cases scope with
  | base domainClass service => exact ⟨_, _, rfl, rfl, by decide, fun name => ⟨[], rfl⟩⟩
  | override domainClass domainInstance service version =>
    exact ⟨_, _, rfl, rfl, by decide, fun name => ⟨[], rfl⟩⟩

/-! ## Templates that agree -/

theorem EnvCoheres.placesEnv (h : set.EnvCoheres) {id : ReleaseId} {d : String} {v : Bytes}
    (hroot : (Registry.mk set).cell (.envRoot id) = .ok (d, v)) :
    (Registry.mk set).PlacesEnv id d v := by
  refine ⟨hroot, fun name value => ?_⟩
  obtain ⟨root, entry, hget, hentry, hkey, hvalue⟩ := h
  have hderived : ∃ w, set.derive (.envRoot id) = .ok (d, w) := by
    rw [Registry.cell] at hroot
    cases hderive : set.derive (.envRoot id) with
    | error fault =>
      rw [hderive] at hroot
      cases hroot
    | ok w =>
      rw [hderive] at hroot
      cases hroot
      exact ⟨w.2, rfl⟩
  obtain ⟨w, hderive⟩ := hderived
  obtain ⟨root', hget', hspell, _⟩ := derive_eq_ok_iff.1 hderive
  cases hget.symm.trans hget'
  have hplaced : set.derive (id.variable name value) = .ok (d ++ "/" ++ name, value) := by
    refine derive_eq_ok_iff.2 ⟨entry, hentry, ?_, ?_⟩
    · exact hkey.spell? [("Name", .text name), ("Value", .text value)] hspell rfl
    · rw [hvalue]
      exact Data.spell?_field rfl
  rw [Registry.cell, hplaced]
  rfl

theorem TierCoheres.placesTier {kind : ConfKind} {scope : Scope}
    (h : set.TierCoheres kind scope) {d : String}
    (hroot : set.path (.confRoot kind scope) = .ok d) :
    (Registry.mk set).PlacesTier kind scope d := by
  refine ⟨hroot, fun name => ?_⟩
  obtain ⟨root, object, hget, hobject, hkey, hvalue⟩ := h
  obtain ⟨w, hderive⟩ := path_eq_ok_iff.1 hroot
  obtain ⟨root', hget', hspell, _⟩ := derive_eq_ok_iff.1 hderive
  cases hget.symm.trans hget'
  obtain ⟨s, hs⟩ := hvalue name
  have htemplate : (Entry.confObject kind scope name).template =
      (Entry.confObject kind scope "").template := by
    cases scope <;> rfl
  refine path_eq_ok_iff.2 ⟨String.ofList s, derive_eq_ok_iff.2 ⟨object, ?_, ?_, ?_⟩⟩
  · rw [htemplate]
    exact hobject
  · have hname : (Entry.confObject kind scope name).fields.field? "Name" = some (.text name) := by
      cases scope <;> rfl
    exact hkey.spell? [("Name", .text name)] hspell hname
  · rw [hs, String.toList_ofList]

end TemplateSet

/-! ## Reading what was created -/

namespace Service

variable {s : Service} {set : TemplateSet}

/-- What is created as an environment placed at `d`, if there is nothing yet, is read back. -/
def EnvReadsBack (s : Service) (set : TemplateSet) (id : ReleaseId) (d : String) : Prop :=
  Path.isValid d = true → ¬ s.tree.Has d → ∀ vars : Env, (∀ name ∈ vars.keys, Path.IsName name) →
    ∃ revision, (s.run ((Registry.mk set).newEnv id vars).run).1 = .ok revision ∧
      ((s.run ((Registry.mk set).newEnv id vars).run).2.run
        ((Registry.mk set).getEnv id).run).1 = .ok (vars, revision)

/-- What is created as a tier placed at `d`, if there is nothing yet, is read back. -/
def TierReadsBack (s : Service) (set : TemplateSet) (kind : ConfKind) (scope : Scope)
    (d : String) : Prop :=
  Path.isValid d = true → ¬ s.tree.Has d →
    ∀ objects : OrderedMap Bytes, (∀ name ∈ objects.keys, Path.IsName name) →
    ∃ revision, (s.run ((Registry.mk set).newConf kind scope objects).run).1 = .ok revision ∧
      TierHolds ⟨set⟩ kind scope objects revision
        (s.run ((Registry.mk set).newConf kind scope objects).run).2

/-- With templates that were accepted, an environment and its variables cohere unless one of
their two templates was replaced by one that does not agree with the other. Where they agree,
every variable is placed right behind the root of its environment, wherever that is; and where
the variables are placed so, what is created is read back. The same goes for tiers. -/
theorem coherent_overrides_read_back {overrides : OrderedMap String}
    (haccepted : TemplateSet.withOverrides overrides = .ok set) (hs : s.FaultFree)
    (hreachable : s.tree.Reachable) :
    ((overrides.get? "env-root" = none → overrides.get? "env-entry" = none → set.EnvCoheres) ∧
      (set.EnvCoheres → ∀ id d v, (Registry.mk set).cell (.envRoot id) = .ok (d, v) →
        (Registry.mk set).PlacesEnv id d v) ∧
      ∀ id d v, (Registry.mk set).PlacesEnv id d v → s.EnvReadsBack set id d) ∧
    ∀ kind scope,
      (overrides.get? (Entry.confRoot kind scope).template = none →
        overrides.get? (Entry.confObject kind scope "").template = none →
        set.TierCoheres kind scope) ∧
      (set.TierCoheres kind scope → ∀ d, set.path (.confRoot kind scope) = .ok d →
        (Registry.mk set).PlacesTier kind scope d) ∧
      ∀ d, (Registry.mk set).PlacesTier kind scope d → s.TierReadsBack set kind scope d := by
  have hsound := hreachable.sound
  refine ⟨⟨TemplateSet.envCoheres_of_kept haccepted, fun hcoheres id d v => hcoheres.placesEnv,
    fun id d v hplaces hvalid hmissing vars hnames => ?_⟩, fun kind scope =>
    ⟨TemplateSet.tierCoheres_of_kept haccepted, fun hcoheres d => hcoheres.placesTier,
      fun d hplaces hvalid hmissing objects hnames => ?_⟩⟩
  · exact newEnv_alone hs hsound hplaces hvalid hmissing (Env.wellFormed_of_names hnames)
  · exact newConf_alone hs hsound hplaces hvalid hmissing hnames

end Service

namespace MovedEnvironments

/-- A source of a key template. -/
def source (key value : String) : String :=
  "\x7b\x7bdefine \"KEY\"\x7d\x7d" ++ key ++ "\x7b\x7bend\x7d\x7d" ++
    "\x7b\x7bdefine \"VALUE\"\x7d\x7d" ++ value ++ "\x7b\x7bend\x7d\x7d"

/-- Where the environments are moved. -/
def rootKey : String :=
  "/envs/\x7b\x7b.Domain\x7d\x7d/\x7b\x7b.Service\x7d\x7d/\x7b\x7b.Version\x7d\x7d"

/-- A source for the roots of environments, elsewhere. -/
def rootSource : String × String := ("env-root", source rootKey "")

/-- A source for variables, behind the roots. -/
def entrySource : String × String :=
  ("env-entry", source (rootKey ++ "/\x7b\x7b.Name\x7d\x7d") "\x7b\x7b.Value\x7d\x7d")

/-- The key template of the roots. -/
def root : KeyTemplate :=
  .ofSegments "env-root" [.text "/envs/", .field ["Domain"], .text "/", .field ["Service"],
    .text "/", .field ["Version"]] []

/-- The key template of the variables. -/
def entry : KeyTemplate :=
  .ofSegments "env-entry" [.text "/envs/", .field ["Domain"], .text "/", .field ["Service"],
    .text "/", .field ["Version"], .text "/", .field ["Name"]] [.field ["Value"]]

/-- The standard templates with that of the roots. -/
def rootOnly : TemplateSet := ⟨TemplateSet.standard.templates.insert "env-root" root⟩

/-- The standard templates with those of the roots and of the variables. -/
def both : TemplateSet :=
  ⟨(TemplateSet.standard.templates.insert "env-entry" entry).insert "env-root" root⟩

/-- A release. -/
def id : ReleaseId := ⟨"d", "s", "v"⟩

/-- Its variables. -/
def vars : Env := OrderedMap.empty.insert "A" "1"

/-- Where both are moved, they still agree, and the environment is read back. Tiers were not
touched. -/
theorem both_read_back :
    TemplateSet.withOverrides (.ofList [rootSource, entrySource]) = .ok both ∧
      (∃ revision, ((Service.fresh).run ((Registry.mk both).newEnv id vars).run).1 =
        .ok revision ∧
        (((Service.fresh).run ((Registry.mk both).newEnv id vars).run).2.run
          ((Registry.mk both).getEnv id).run).1 = .ok (vars, revision)) ∧
      Service.fresh.TierReadsBack both .config (.base "c" "s") "/conf/base/c/s" := by
  have haccepted : TemplateSet.withOverrides (.ofList [rootSource, entrySource]) = .ok both :=
    eq_ok_of_toOption (by decide +kernel)
  obtain ⟨⟨_, hplaces, hreads⟩, htiers⟩ :=
    @Service.coherent_overrides_read_back .fresh both _ haccepted ⟨rfl, rfl⟩ .empty
  obtain ⟨hkept, htier, hback⟩ := htiers .config (.base "c" "s")
  have hcoheres : both.EnvCoheres :=
    ⟨root, entry, by decide +kernel, by decide +kernel, by decide, by decide⟩
  have hroot : (Registry.mk both).cell (.envRoot id) = .ok ("/envs/d/s/v", []) :=
    eq_ok_of_toOption (by decide +kernel)
  have hconf : both.path (.confRoot .config (.base "c" "s")) = .ok "/conf/base/c/s" :=
    eq_ok_of_toOption (by decide +kernel)
  exact ⟨haccepted,
    hreads id _ _ (hplaces hcoheres id _ _ hroot) (by decide) (by decide +kernel) vars
      (by decide +kernel),
    hback _ (htier (hkept (by decide +kernel) (by decide +kernel)) _ hconf)⟩

/-- Where the roots alone are moved, variables are stored where they stood before: they are not
behind the root, and reading finds none of them. -/
theorem root_alone_reads_nothing :
    TemplateSet.withOverrides (.ofList [rootSource]) = .ok rootOnly ∧
      (Registry.mk rootOnly).cell (.envRoot id) = .ok ("/envs/d/s/v", []) ∧
      Path.isValid "/envs/d/s/v" = true ∧ ¬ Service.fresh.tree.Has "/envs/d/s/v" ∧
      (Registry.mk rootOnly).cell (id.variable "A" "1") =
        .ok ("/d/s/v/env/A", Text.Utf8.encode "1") ∧
      ((Service.fresh).run ((Registry.mk rootOnly).newEnv id vars).run).1 = .ok 0 ∧
      (((Service.fresh).run ((Registry.mk rootOnly).newEnv id vars).run).2.run
        ((Registry.mk rootOnly).getEnv id).run).1 = .ok (.empty, 0) := by
  refine ⟨eq_ok_of_toOption ?_, eq_ok_of_toOption ?_, ?_, ?_, eq_ok_of_toOption ?_,
    eq_ok_of_toOption ?_, eq_ok_of_toOption ?_⟩
  all_goals decide +kernel

end MovedEnvironments

end Coordination
