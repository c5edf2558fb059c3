import Coordination.Proofs.Namespace.Paths
import Coordination.Proofs.Text.Numeral
import Coordination.Proofs.Tree.Calls
import Mathlib.Data.List.Induction

/-!
# Entries apart

The path of an entry is made of some of its fields: of those that the key template of its type
reads. With the standard templates every path is a list of names, each behind a slash, and from
the names one can read back of which type an entry there is and what the fields are. For this the
fields have to be names, and the first and the third name of a release must not be words that
start the paths of other types. Nothing is said of payloads.
-/

namespace Coordination

/-! ## Paths made of names -/

namespace Path

/-- The path of names, each behind a slash. -/
def ofNames (names : List String) : String := String.join (names.map ("/" ++ ·))

theorem toList_ofNames (names : List String) :
    (ofNames names).toList = names.flatMap fun n => '/' :: n.toList := by
  induction names with
  | nil => rfl
  | cons n names ih =>
    rw [ofNames] at ih ⊢
    simp [String.join_cons, ih]

theorem ofNames_concat (names : List String) (n : String) :
    ofNames (names ++ [n]) = ofNames names ++ "/" ++ n := by
  apply String.toList_injective
  simp [toList_ofNames]

theorem segments_ofNames {names : List String} (h : ∀ n ∈ names, IsName n) :
    segments (ofNames names) = "" :: names := by
  induction names using List.reverseRecOn with
  | nil => decide
  | append_singleton names n ih =>
    rw [List.forall_mem_append, List.forall_mem_singleton] at h
    rw [ofNames_concat, segments_cut, ih h.1, segments_of_no_slash h.2.2, List.cons_append]

theorem isValid_ofNames {n : String} {names : List String} (h : ∀ m ∈ n :: names, IsName m) :
    isValid (ofNames (n :: names)) = true :=
  isValid_of_segments (segments_ofNames h) fun m hm => (h m hm).1

/-- Names can be read off their path. -/
theorem ofNames_inj {names names' : List String} (h : ∀ n ∈ names, IsName n)
    (h' : ∀ n ∈ names', IsName n) : ofNames names = ofNames names' ↔ names = names' := by
  refine ⟨fun heq => ?_, congrArg ofNames⟩
  have hsegments := congrArg segments heq
  rw [segments_ofNames h, segments_ofNames h'] at hsegments
  exact (List.cons.inj hsegments).2

end Path

/-! ## What a template reads -/

namespace Template

/-- The names of the fields that the template reads. -/
def reads (t : Template) : List String :=
  t.segments.filterMap fun
    | .field (name :: _) => some name
    | _ => none

theorem lookup_filter {p : String → Bool} {k : String} (hk : p k = true)
    (fields : List (String × Data)) :
    (fields.filter fun f => p f.1).lookup k = fields.lookup k := by
  induction fields with
  | nil => rfl
  | cons f fields ih =>
    obtain ⟨name, d⟩ := f
    by_cases hname : k = name
    · subst hname
      simp [hk]
    · have hskip : (k == name) = false := by simp [hname]
      by_cases hp : p name = true
      · simp [hp, List.lookup_cons, hskip, ih]
      · simp [hp, List.lookup_cons, hskip, ih]

theorem render_eq_of_segments {name : String} {c c' : Data} {segments : List Segment}
    (h : ∀ seg ∈ segments, seg.render name c = seg.render name c') :
    segments.mapM (Segment.render name c) = segments.mapM (Segment.render name c') := by
  induction segments with
  | nil => rfl
  | cons seg segments ih =>
    obtain ⟨hseg, hsegments⟩ := List.forall_mem_cons.1 h
    rw [List.mapM_cons, List.mapM_cons, hseg, ih hsegments]

/-- A template sees only the fields that it reads. -/
theorem render_filter_reads (t : Template) (fields : List (String × Data)) :
    t.render (.table (fields.filter fun f => f.1 ∈ t.reads)) = t.render (.table fields) := by
  refine congrArg (Except.map _) (render_eq_of_segments fun seg hseg => ?_)
  cases seg with
  | text s => rfl
  | field path =>
    cases path with
    | nil => rfl
    | cons name rest =>
      have hname : name ∈ t.reads := List.mem_filterMap.2 ⟨_, hseg, rfl⟩
      have hlookup := lookup_filter (p := (· ∈ t.reads)) (decide_eq_true hname) fields
      simp only [Segment.render, Data.descend?, Data.field?, hlookup]

end Template

/-! ## The fields of a path -/

/-- The names of a release's path. -/
def ReleaseId.names (id : ReleaseId) : List String := [id.domain, id.service, id.version]

/-- The names of a tier's path behind that of its kind. -/
def Scope.names : Scope → List String
  | .base domainClass service => ["base", domainClass, service]
  | .override domainClass domainInstance service version =>
    ["override", domainClass, domainInstance, service, version]

namespace Entry

/-- The fields of which the standard templates make the path of the entry. -/
def keyFields (e : Entry) : List (String × Data) :=
  match TemplateSet.standard.templates.get? e.template with
  | some t => e.fieldList.filter fun f => f.1 ∈ t.key.reads
  | none => []

/-- The texts among the fields of the path. -/
def keyTexts (e : Entry) : List String :=
  e.keyFields.filterMap fun
    | (_, .text s) => some s
    | _ => none

/-- The domain of an entry whose path starts with it. -/
def domain? : Entry → Option String
  | .envRoot id | .envEntry id .. | .releaseWatch id => some id.domain
  | .release r | .imageCount r _ => some r.id.domain
  | .container c => some c.release.id.domain
  | .live p => some p.domain
  | .liveWatch domain _ => some domain
  | .dashboard _ | .confRoot .. | .confObject .. => none

/-- The version of an entry below the path of its release. -/
def version? : Entry → Option String
  | .envRoot id | .envEntry id .. | .releaseWatch id => some id.version
  | .release r | .imageCount r _ => some r.id.version
  | .container c => some c.release.id.version
  | .live _ | .liveWatch .. | .dashboard _ | .confRoot .. | .confObject .. => none

/-- The texts in the path are names, and neither the domain nor the version of a release is a
word that stands at this place in the paths of other types. -/
structure Admitted (e : Entry) : Prop where
  named : ∀ s ∈ e.keyTexts, Path.IsName s
  domain : ∀ d, e.domain? = some d → d ∉ ["conf", "pkg", "dashboard"]
  version : ∀ v, e.version? = some v → v ≠ "live"

instance (e : Entry) : Decidable e.Admitted :=
  decidable_of_iff ((∀ s ∈ e.keyTexts, Path.IsName s) ∧
    (∀ d ∈ e.domain?, d ∉ ["conf", "pkg", "dashboard"]) ∧ ∀ v ∈ e.version?, v ≠ "live")
    ⟨fun h => ⟨h.1, h.2.1, h.2.2⟩, fun h => ⟨h.named, h.domain, h.version⟩⟩

/-- The fields of the path, type by type. -/
def keyList : Entry → List (String × Data)
  | .envRoot id | .releaseWatch id => idFields id
  | .envEntry id name _ => idFields id ++ [("Name", .text name)]
  | .release r => idFields r.id
  | .imageCount r _ => releaseFields r
  | .container c =>
    releaseFields c.release ++
      [("ContainerId", .text c.containerId), ("Port", .nat c.port.toNat)]
  | .live p => [("Domain", .text p.domain), ("Service", .text p.service)]
  | .liveWatch domain service => [("Domain", .text domain), ("Service", .text service)]
  | .dashboard d =>
    [("Domain", .text d.domain), ("Service", .text d.service), ("Host", .text d.host),
      ("Port", .nat d.port.toNat)]
  | .confRoot kind scope => ("Kind", .text kind.name) :: scopeFields scope
  | .confObject kind scope name =>
    ("Kind", .text kind.name) :: scopeFields scope ++ [("Name", .text name)]

theorem keyFields_eq (e : Entry) : e.keyFields = e.keyList := by
  cases e with
  | confRoot kind scope => cases scope <;> rfl
  | confObject kind scope name => cases scope <;> rfl
  | _ => rfl

/-! ## What the standard templates derive -/

/-- A name with a port behind it. -/
def portPair (name : String) (port : UInt16) : String := name ++ ":" ++ toString port.toNat

/-- The names of the entry's path. -/
def names : Entry → List String
  | .envRoot id => id.names ++ ["env"]
  | .envEntry id name _ => id.names ++ ["env", name]
  | .release r => r.id.names
  | .releaseWatch id => id.names ++ ["watch"]
  | .imageCount r _ => r.id.names ++ ["container", r.image]
  | .container c =>
    c.release.id.names ++ ["container", c.release.image, portPair c.containerId c.port]
  | .live p => [p.domain, p.service, "live"]
  | .liveWatch domain service => [domain, service, "live", "watch"]
  | .dashboard d => ["dashboard", d.domain, d.service, portPair d.host d.port]
  | .confRoot kind scope => kind.name :: scope.names
  | .confObject kind scope name => kind.name :: scope.names ++ [name]

/-- The payload of the entry. -/
def payload : Entry → String
  | .envEntry _ _ value => value
  | .release r => r.image
  | .releaseWatch _ | .liveWatch .. => "0"
  | .imageCount _ count => toString count.toNat
  | .container c => portPair c.host c.hostPort
  | .live p => p.containerPath ++ "," ++ p.envPath
  | .dashboard d => d.url
  | .envRoot _ | .confRoot .. | .confObject .. => ""

theorem toText_nat (n : Nat) : (Number.int n).toText = toString n := rfl

/-- The standard templates derive a path and a payload from every entry. -/
theorem derive_standard (e : Entry) :
    TemplateSet.standard.derive e = .ok (Path.ofNames e.names, e.payload) := by
  have hderive {path value : String} (hpath : (Path.ofNames e.names).toList = path.toList)
      (hvalue : e.payload.toList = value.toList)
      (h : TemplateSet.standard.derive e = .ok (path, value)) :
      TemplateSet.standard.derive e = .ok (Path.ofNames e.names, e.payload) := by
    rw [h, String.toList_injective hpath, String.toList_injective hvalue]
  cases e with
  | confRoot kind scope =>
    refine hderive ?_ rfl (TemplateSet.derive_confRoot kind scope)
    cases scope <;> simp [Path.toList_ofNames, names, Scope.names, Scope.path]
  | confObject kind scope name =>
    refine hderive ?_ rfl (TemplateSet.derive_confObject kind scope name)
    cases scope <;> simp [Path.toList_ofNames, names, Scope.names, Scope.path]
  | _ =>
    refine hderive ?_ ?_ rfl
    · simp [Path.toList_ofNames, names, ReleaseId.names, portPair, toText_nat]
    · simp [payload, portPair, toText_nat]

/-- The path depends on the type and on the fields that its template reads. -/
theorem path_eq_of_keyFields {e e' : Entry} (htemplate : e.template = e'.template)
    (hfields : e.keyFields = e'.keyFields) : Path.ofNames e.names = Path.ofNames e'.names := by
  have hkey (e : Entry) {t : KeyTemplate}
      (ht : TemplateSet.standard.templates.get? e.template = some t) :
      t.key.render (.table e.keyFields) = .ok (Path.ofNames e.names) := by
    have hderive := e.derive_standard
    rw [TemplateSet.derive, TemplateSet.deriveFields, ht] at hderive
    obtain ⟨key, hkey, hrest⟩ := Tree.exists_of_bind_eq_ok hderive
    obtain ⟨value, -, hpair⟩ := Tree.exists_of_bind_eq_ok hrest
    cases hpair
    rw [keyFields, ht]
    exact (t.key.render_filter_reads e.fieldList).trans hkey
  cases ht : TemplateSet.standard.templates.get? e.template with
  | none =>
    have hderive := e.derive_standard
    rw [TemplateSet.derive, TemplateSet.deriveFields, ht] at hderive
    cases hderive
  | some t =>
    have h := hkey e ht
    rw [hfields, hkey e' (htemplate ▸ ht)] at h
    exact (Except.ok.inj h).symm

/-! ## Reading paths back -/

/-- The name and the port of a pair. -/
def readPair (pair : String) : Option (String × Data) :=
  (Text.splitLast ':' pair.toList).map fun (name, port) =>
    (String.ofList name, .nat (Nat.ofDigitChars 10 port 0))

/-- What stands below the first name of a release: the name of its template and the fields of
its path. -/
def identifyRelease (domain : String) : List String → Option (String × List (String × Data))
  | [service, "live"] =>
    some ("live", [("Domain", .text domain), ("Service", .text service)])
  | [service, "live", "watch"] =>
    some ("live-watch", [("Domain", .text domain), ("Service", .text service)])
  | [service, version] => some ("release", idFields ⟨domain, service, version⟩)
  | [service, version, "env"] => some ("env-root", idFields ⟨domain, service, version⟩)
  | [service, version, "watch"] => some ("release-watch", idFields ⟨domain, service, version⟩)
  | [service, version, "env", name] =>
    some ("env-entry", idFields ⟨domain, service, version⟩ ++ [("Name", .text name)])
  | [service, version, "container", image] =>
    some ("image-count", releaseFields ⟨⟨domain, service, version⟩, image⟩)
  | [service, version, "container", image, pair] =>
    (readPair pair).map fun (containerId, port) =>
      ("container", releaseFields ⟨⟨domain, service, version⟩, image⟩ ++
        [("ContainerId", .text containerId), ("Port", port)])
  | _ => none

/-- What stands below the name of a kind. -/
def identifyConf (kind : String) : List String → Option (String × List (String × Data))
  | ["base", domainClass, service] =>
    some ("conf-base-root", ("Kind", .text kind) :: scopeFields (.base domainClass service))
  | ["base", domainClass, service, name] =>
    some ("conf-base", ("Kind", .text kind) :: scopeFields (.base domainClass service) ++
      [("Name", .text name)])
  | ["override", domainClass, domainInstance, service, version] =>
    some ("conf-override-root", ("Kind", .text kind) ::
      scopeFields (.override domainClass domainInstance service version))
  | ["override", domainClass, domainInstance, service, version, name] =>
    some ("conf-override", ("Kind", .text kind) ::
      scopeFields (.override domainClass domainInstance service version) ++
        [("Name", .text name)])
  | _ => none

/-- What stands below the name of dashboards. -/
def identifyDashboard : List String → Option (String × List (String × Data))
  | [domain, service, pair] =>
    (readPair pair).map fun (host, port) =>
      ("dashboard", [("Domain", .text domain), ("Service", .text service),
        ("Host", .text host), ("Port", port)])
  | _ => none

/-- What stands at the path of some names. -/
def identify : List String → Option (String × List (String × Data))
  | [] => none
  | first :: rest =>
    if first = "dashboard" then identifyDashboard rest
    else if first = "conf" ∨ first = "pkg" then identifyConf first rest
    else identifyRelease first rest

/-- The numeral of a number has no character but digits. -/
theorem not_mem_toString {c : Char} (hc : c.isDigit = false) (n : Nat) :
    c ∉ (toString n).toList := by
  intro h
  rw [Text.toList_toString_nat] at h
  have hdigit := Nat.isDigit_of_mem_toDigits (by decide) (by decide) h
  exact absurd (hc.symm.trans hdigit) Bool.false_ne_true

theorem toList_portPair (name : String) (port : UInt16) :
    (portPair name port).toList = name.toList ++ ':' :: (toString port.toNat).toList := by
  simp [portPair]

/-- The last colon is the one before the port, whatever the name. -/
theorem readPair_portPair (name : String) (port : UInt16) :
    readPair (portPair name port) = some (name, .nat port.toNat) := by
  have hcolon : ':' ∉ (toString port.toNat).toList := not_mem_toString (by decide) _
  have hnumber : Nat.ofDigitChars 10 (toString port.toNat).toList 0 = port.toNat := by
    rw [Text.toList_toString_nat]
    exact Nat.ofDigitChars_toDigits (by decide) (by decide)
  rw [readPair, toList_portPair, Text.splitLast_append _ hcolon, Option.map_some]
  simp only [hnumber, String.ofList_toList]

theorem isName_portPair_of_no_slash {name : String} (port : UInt16) (h : '/' ∉ name.toList) :
    Path.IsName (portPair name port) := by
  constructor
  · intro hempty
    have hlength := congrArg (fun s : String => s.toList.length) hempty
    simp [portPair] at hlength
  · simp only [portPair, String.toList_append, List.mem_append, not_or]
    exact ⟨⟨h, by decide⟩, not_mem_toString (by decide) _⟩

theorem isName_portPair {name : String} (port : UInt16) (h : Path.IsName name) :
    Path.IsName (portPair name port) := isName_portPair_of_no_slash port h.2

/-- The path of an admitted entry is made of names. -/
theorem Admitted.isName {e : Entry} (h : e.Admitted) : ∀ n ∈ e.names, Path.IsName n := by
  have hnamed := h.named
  have hwords : ∀ w ∈ ["env", "watch", "container", "live", "dashboard", "base", "override"],
      Path.IsName w := by decide
  simp only [List.forall_mem_cons] at hwords
  rw [keyTexts, keyFields_eq] at hnamed
  cases e with
  | confRoot kind scope =>
    cases scope <;>
    · simp [keyList, scopeFields] at hnamed
      simp [names, Scope.names, hnamed, hwords]
  | confObject kind scope name =>
    cases scope <;>
    · simp [keyList, scopeFields] at hnamed
      simp [names, Scope.names, hnamed, hwords]
  | _ =>
    simp [keyList, idFields, releaseFields, Data.nat, Data.int] at hnamed
    simp [names, ReleaseId.names, hnamed, hwords, isName_portPair]

/-- The type and the fields of an admitted entry can be read off its path. -/
theorem identify_names {e : Entry} (h : e.Admitted) :
    identify e.names = some (e.template, e.keyFields) := by
  have hdomain := h.domain
  have hversion := h.version
  rw [keyFields_eq]
  cases e with
  | dashboard d =>
    simp [names, identify, identifyDashboard, readPair_portPair, template, keyList]
  | confRoot kind scope =>
    cases kind <;> cases scope <;>
      simp [names, Scope.names, ConfKind.name, identify, identifyConf, template, keyList]
  | confObject kind scope name =>
    cases kind <;> cases scope <;>
      simp [names, Scope.names, ConfKind.name, identify, identifyConf, template, keyList]
  | _ =>
    simp [domain?, version?] at hdomain hversion
    simp [names, ReleaseId.names, identify, identifyRelease, readPair_portPair, hdomain,
      template, keyList]

/-- With the standard templates every entry has a path and a payload, and those of admitted
entries are valid paths. Two of them are the same exactly if the entries are of one type and
agree in the fields that the path is made of, whatever colons stand in these fields. -/
theorem paths_meet_iff {e e' : Entry} (h : e.Admitted) (h' : e'.Admitted) :
    ∃ path payload path' payload',
      TemplateSet.standard.derive e = .ok (path, payload) ∧
      TemplateSet.standard.derive e' = .ok (path', payload') ∧
      Path.isValid path = true ∧ Path.isValid path' = true ∧
      (path = path' ↔ e.template = e'.template ∧ e.keyFields = e'.keyFields) := by
  have hvalid {e : Entry} (h : e.Admitted) : Path.isValid (Path.ofNames e.names) = true := by
    have hnames := h.isName
    cases hlist : e.names with
    | nil =>
      have hidentify := identify_names h
      rw [hlist] at hidentify
      cases hidentify
    | cons n names => exact Path.isValid_ofNames (hlist ▸ hnames)
  refine ⟨_, _, _, _, e.derive_standard, e'.derive_standard, hvalid h, hvalid h', ?_, ?_⟩
  · intro hpath
    have hnames := (Path.ofNames_inj h.isName h'.isName).1 hpath
    have hidentify := identify_names h
    rw [hnames, identify_names h', Option.some.injEq, Prod.mk.injEq] at hidentify
    exact ⟨hidentify.1.symm, hidentify.2.symm⟩
  · rintro ⟨htemplate, hfields⟩
    exact path_eq_of_keyFields htemplate hfields

end Entry

/-! ## Colons in names -/

namespace ColonName

/-- A container of one release, by its name and port. -/
def container (containerId : String) (port : UInt16) : Entry :=
  .container ⟨⟨⟨"d", "s", "v"⟩, "image:1"⟩, containerId, port, "h", 1⟩

theorem admitted (containerId : String) (port : UInt16) (h : Path.IsName containerId) :
    (container containerId port).Admitted where
  named := by
    have hfixed : ∀ s ∈ ["d", "s", "v", "image:1"], Path.IsName s := by decide
    simp only [List.forall_mem_cons] at hfixed
    rw [Entry.keyTexts, Entry.keyFields_eq]
    simp [container, Entry.keyList, Entry.releaseFields, Entry.idFields, Data.nat, Data.int,
      hfixed, h]
  domain := by simp [container, Entry.domain?]
  version := by simp [container, Entry.version?]

/-- A name that ends like a port does not meet a shorter name with a longer port. -/
theorem paths_apart :
    ∃ path path' payload payload',
      TemplateSet.standard.derive (container "a:1" 23) = .ok (path, payload) ∧
      TemplateSet.standard.derive (container "a" 123) = .ok (path', payload') ∧
      path ≠ path' := by
  obtain ⟨path, payload, path', payload', hderive, hderive', -, -, hiff⟩ :=
    Entry.paths_meet_iff (admitted "a:1" 23 (by decide)) (admitted "a" 123 (by decide))
  refine ⟨path, path', payload, payload', hderive, hderive', fun hpath => ?_⟩
  have hfields := (hiff.1 hpath).2
  simp [Entry.keyFields_eq, container, Entry.keyList] at hfields

end ColonName

end Coordination
