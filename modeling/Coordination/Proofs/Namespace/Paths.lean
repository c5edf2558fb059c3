import Coordination.Namespace.Standard
import Coordination.Proofs.Path.Below

/-!
# Paths of environments and tiers

Where the standard templates place environments and configuration tiers. An object or a
variable stands directly behind the slash that follows its directory. As long as scopes are
made of names, a tier is recognised by the segments of any path at or directly below it, so
no tier stands at, above or below another one or at an object, and the objects below a tier are
its own.
-/

namespace Coordination

/-- The path of a release's environment. -/
def ReleaseId.envPath (id : ReleaseId) : String :=
  "/" ++ id.domain ++ "/" ++ id.service ++ "/" ++ id.version ++ "/env"

/-- The path of a tier. -/
def Scope.path (kind : ConfKind) : Scope → String
  | .base domainClass service =>
    "/" ++ kind.name ++ "/base/" ++ domainClass ++ "/" ++ service
  | .override domainClass domainInstance service version =>
    "/" ++ kind.name ++ "/override/" ++ domainClass ++ "/" ++ domainInstance ++ "/" ++
      service ++ "/" ++ version

/-! ## What the standard templates derive -/

namespace TemplateSet

theorem derive_envRoot (id : ReleaseId) :
    standard.derive (.envRoot id) = .ok (id.envPath, "") := rfl

theorem derive_variable (id : ReleaseId) (name value : String) :
    standard.derive (id.variable name value) = .ok (id.envPath ++ "/" ++ name, value) := by
  have hrender : standard.derive (id.variable name value) =
      .ok ("/" ++ id.domain ++ "/" ++ id.service ++ "/" ++ id.version ++ "/env/" ++ name,
        value) := by
    have hvalue : "" ++ value = value := String.empty_append
    conv => rhs; rw [← hvalue]
    rfl
  have hslash : "/env/" = "/env" ++ "/" := rfl
  rw [hrender, ReleaseId.envPath, hslash, ← String.append_assoc]

theorem derive_confRoot (kind : ConfKind) (scope : Scope) :
    standard.derive (.confRoot kind scope) = .ok (scope.path kind, "") := by
  cases scope with
  | base domainClass service => rfl
  | override domainClass domainInstance service version => rfl

theorem derive_confObject (kind : ConfKind) (scope : Scope) (name : String) :
    standard.derive (.confObject kind scope name) = .ok (scope.path kind ++ "/" ++ name, "") := by
  cases scope with
  | base domainClass service => rfl
  | override domainClass domainInstance service version => rfl

end TemplateSet

theorem ReleaseId.envPath_ne_root (id : ReleaseId) : id.envPath ≠ Path.root := by
  intro h
  have hlen := congrArg (fun s : String => s.toList.length) h
  simp only [envPath, String.toList_append, List.length_append] at hlen
  have hroot : Path.root.toList.length = 1 := rfl
  have hslash : "/".toList.length = 1 := rfl
  omega

/-! ## Tiers apart -/

namespace Scope

/-- All fields of the scope are names. -/
def Named : Scope → Prop
  | .base domainClass service => Path.IsName domainClass ∧ Path.IsName service
  | .override domainClass domainInstance service version =>
    Path.IsName domainClass ∧ Path.IsName domainInstance ∧ Path.IsName service ∧
      Path.IsName version

instance (scope : Scope) : Decidable scope.Named := by
  cases scope <;> unfold Named <;> infer_instance

theorem Named.fallback {scope base : Scope} (h : scope.Named)
    (hbase : scope.fallback? = some base) : base.Named := by
  cases scope with
  | base domainClass service => cases hbase
  | override domainClass domainInstance service version =>
    cases hbase
    exact ⟨h.1, h.2.2.1⟩

theorem tier_of_fallback {scope base : Scope} (hbase : scope.fallback? = some base) :
    scope.tier = .override ∧ base.tier = .base := by
  cases scope with
  | base domainClass service => cases hbase
  | override domainClass domainInstance service version =>
    cases hbase
    exact ⟨rfl, rfl⟩

/-- The segments of a tier's path. -/
def segments (kind : ConfKind) : Scope → List String
  | .base domainClass service => ["", kind.name, "base", domainClass, service]
  | .override domainClass domainInstance service version =>
    ["", kind.name, "override", domainClass, domainInstance, service, version]

theorem no_slash_kindName (kind : ConfKind) : '/' ∉ kind.name.toList := by
  cases kind <;> decide

theorem kindName_injective {kind kind' : ConfKind} (h : kind.name = kind'.name) :
    kind = kind' := by
  cases kind <;> cases kind' <;> first | rfl | exact absurd h (by decide)

theorem segments_path (kind : ConfKind) {scope : Scope} (h : scope.Named) :
    Path.segments (scope.path kind) = scope.segments kind := by
  have hempty : Path.segments "" = [""] := by decide
  have hkind := Path.segments_of_no_slash (no_slash_kindName kind)
  have hstart (rest : String) :
      Path.segments ("/" ++ kind.name ++ "/" ++ rest) = "" :: kind.name :: Path.segments rest := by
    have hslash : "/" ++ kind.name = "" ++ "/" ++ kind.name := by rw [String.empty_append]
    rw [hslash, Path.segments_cut, Path.segments_cut, hempty, hkind]
    rfl
  cases scope with
  | base domainClass service =>
    have hbase : Path.segments "base" = ["base"] := by decide
    have hcut : path kind (.base domainClass service) =
        "/" ++ kind.name ++ "/" ++ ("base" ++ "/" ++ domainClass ++ "/" ++ service) := by
      have hslash : "/base/" = "/" ++ ("base" ++ "/") := rfl
      simp only [path, hslash, String.append_assoc]
    rw [hcut, hstart, Path.segments_cut, Path.segments_cut, hbase,
      Path.segments_of_no_slash h.1.2, Path.segments_of_no_slash h.2.2]
    rfl
  | override domainClass domainInstance service version =>
    have hoverride : Path.segments "override" = ["override"] := by decide
    have hcut : path kind (.override domainClass domainInstance service version) =
        "/" ++ kind.name ++ "/" ++ ("override" ++ "/" ++ domainClass ++ "/" ++ domainInstance ++
          "/" ++ service ++ "/" ++ version) := by
      have hslash : "/override/" = "/" ++ ("override" ++ "/") := rfl
      simp only [path, hslash, String.append_assoc]
    rw [hcut, hstart, Path.segments_cut, Path.segments_cut, Path.segments_cut,
      Path.segments_cut, hoverride, Path.segments_of_no_slash h.1.2,
      Path.segments_of_no_slash h.2.1.2, Path.segments_of_no_slash h.2.2.1.2,
      Path.segments_of_no_slash h.2.2.2.2]
    rfl

theorem path_ne_root (kind : ConfKind) {scope : Scope} (h : scope.Named) :
    scope.path kind ≠ Path.root := by
  intro hroot
  have hsegments := segments_path kind h
  rw [hroot] at hsegments
  have hlen := congrArg List.length hsegments
  have htwo : (Path.segments Path.root).length = 2 := by decide
  cases scope <;> simp only [segments, List.length_cons, List.length_nil] at hlen <;> omega

/-- The segments of a tier's path, and of a path directly below it, tell the tier. -/
theorem eq_of_segments_prefix {kind kind' : ConfKind} {scope scope' : Scope}
    {rest : List String} (h : scope.segments kind <+: scope'.segments kind' ++ rest)
    (hrest : rest.length ≤ 1) :
    kind = kind' ∧ scope = scope' := by
  have hlen := h.length_le
  cases scope with
  | base domainClass service =>
    cases scope' with
    | base domainClass' service' =>
      simp only [segments, List.cons_append, List.cons_prefix_cons, List.nil_append] at h
      obtain ⟨_, hkind, _, hclass, hservice, _⟩ := h
      exact ⟨kindName_injective hkind, by rw [hclass, hservice]⟩
    | override domainClass' domainInstance' service' version' =>
      simp only [segments, List.cons_append, List.cons_prefix_cons] at h
      exact absurd h.2.2.1 (by decide)
  | override domainClass domainInstance service version =>
    cases scope' with
    | base domainClass' service' =>
      simp only [segments, List.length_append, List.length_cons, List.length_nil] at hlen
      omega
    | override domainClass' domainInstance' service' version' =>
      simp only [segments, List.cons_append, List.cons_prefix_cons, List.nil_append] at h
      obtain ⟨_, hkind, _, hclass, hinstance, hservice, hversion, _⟩ := h
      exact ⟨kindName_injective hkind, by rw [hclass, hinstance, hservice, hversion]⟩

/-- The path of an object of a tier. -/
def objectPath (kind : ConfKind) (scope : Scope) (name : String) : String :=
  scope.path kind ++ "/" ++ name

theorem isValid_path (kind : ConfKind) {scope : Scope} (h : scope.Named) :
    Path.isValid (scope.path kind) = true := by
  have hkind : kind.name ≠ "" := by cases kind <;> decide
  have hsegments := segments_path kind h
  cases scope with
  | base domainClass service =>
    refine Path.isValid_of_segments hsegments ?_
    simp only [List.forall_mem_cons]
    exact ⟨hkind, by decide, h.1.1, h.2.1, List.forall_mem_nil _⟩
  | override domainClass domainInstance service version =>
    refine Path.isValid_of_segments hsegments ?_
    simp only [List.forall_mem_cons]
    exact ⟨hkind, by decide, h.1.1, h.2.1.1, h.2.2.1.1, h.2.2.2.1, List.forall_mem_nil _⟩

theorem segments_objectPath {kind : ConfKind} {scope : Scope} {name : String}
    (h : scope.Named) (hname : Path.IsName name) :
    Path.segments (scope.objectPath kind name) = scope.segments kind ++ [name] := by
  rw [objectPath, Path.segments_cut, segments_path kind h, Path.segments_of_no_slash hname.2]

/-- Different tiers have different paths. -/
theorem eq_of_path_eq {kind kind' : ConfKind} {scope scope' : Scope} (h : scope.Named)
    (h' : scope'.Named) (heq : scope.path kind = scope'.path kind') :
    kind = kind' ∧ scope = scope' := by
  have hsegments : scope.segments kind = scope'.segments kind' := by
    rw [← segments_path kind h, ← segments_path kind' h', heq]
  have hprefix : scope.segments kind <+: scope'.segments kind' ++ [] :=
    ⟨[], by rw [hsegments]⟩
  exact eq_of_segments_prefix hprefix (Nat.zero_le 1)

/-- No object stands where a tier does. -/
theorem objectPath_ne_path {kind kind' : ConfKind} {scope scope' : Scope} {name : String}
    (h : scope.Named) (h' : scope'.Named) (hname : Path.IsName name) :
    scope.objectPath kind name ≠ scope'.path kind' := by
  intro heq
  have hsegments : scope.segments kind ++ [name] = scope'.segments kind' := by
    rw [← segments_objectPath h hname, heq, segments_path kind' h']
  have hprefix : scope.segments kind <+: scope'.segments kind' ++ [] := by
    rw [← hsegments, List.append_nil]
    exact List.prefix_append _ _
  obtain ⟨rfl, rfl⟩ := eq_of_segments_prefix hprefix (Nat.zero_le 1)
  have hlen := congrArg List.length hsegments
  rw [List.length_append, List.length_singleton] at hlen
  omega

/-- What lies below a path other than the root continues its segments. -/
theorem segments_prefix_of_below {a q : String} (ha : a ≠ Path.root) (h : Path.Below a q) :
    ∃ rest, Path.segments q = Path.segments a ++ rest ∧ rest ≠ [] := by
  obtain ⟨r, rfl⟩ := Path.exists_append_of_startsWith h.2
  rw [Path.childStart_of_ne ha, Path.segments_cut]
  exact ⟨_, rfl, Path.segments_ne_nil r⟩

/-- No tier lies below a tier. -/
theorem not_path_below_path {kind kind' : ConfKind} {scope scope' : Scope} (h : scope.Named)
    (h' : scope'.Named) : ¬ Path.Below (scope.path kind) (scope'.path kind') := by
  intro hbelow
  obtain ⟨rest, hrest, hne⟩ := segments_prefix_of_below (path_ne_root kind h) hbelow
  rw [segments_path kind h, segments_path kind' h'] at hrest
  have hprefix : scope.segments kind <+: scope'.segments kind' ++ [] := by
    rw [hrest, List.append_nil]
    exact List.prefix_append _ _
  obtain ⟨rfl, rfl⟩ := eq_of_segments_prefix hprefix (Nat.zero_le 1)
  exact hne (List.self_eq_append_right.1 hrest)

/-- What lies below a tier, if it is an object of a tier, is one of that tier. -/
theorem eq_of_path_below_objectPath {kind kind' : ConfKind} {scope scope' : Scope}
    {name : String} (h : scope.Named) (h' : scope'.Named) (hname : Path.IsName name)
    (hbelow : Path.Below (scope.path kind) (scope'.objectPath kind' name)) :
    kind = kind' ∧ scope = scope' := by
  obtain ⟨rest, hrest, _⟩ := segments_prefix_of_below (path_ne_root kind h) hbelow
  rw [segments_path kind h, segments_objectPath h' hname] at hrest
  have hprefix : scope.segments kind <+: scope'.segments kind' ++ [name] := by
    rw [hrest]
    exact List.prefix_append _ _
  exact eq_of_segments_prefix hprefix (Nat.le_refl 1)

theorem isValid_objectPath (kind : ConfKind) {scope : Scope} {name : String} (h : scope.Named)
    (hname : Path.IsName name) : Path.isValid (scope.objectPath kind name) = true := by
  rw [objectPath, ← Path.childStart_of_ne (path_ne_root kind h)]
  exact Path.isValid_append (isValid_path kind h) hname.isRelative

end Scope

end Coordination
