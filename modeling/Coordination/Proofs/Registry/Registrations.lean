import Coordination.Proofs.Namespace.Entries
import Coordination.Proofs.Registry.Confinement
import Coordination.Proofs.Tree.Avoiding

/-!
# Registrations

Releases, the nodes that are touched for them, the counts of their images and dashboards are
stored by operations that do nothing else. All of them stand at paths of their own: with the
standard templates no other operation writes there, whatever the names of variables and of
configuration objects. But the nodes of a release and of an image stand above others, so
operations that create those make them appear.
-/

namespace Coordination

/-! ## Paths that do not meet -/

namespace Path

/-- A path of names behind another one has its names behind those of the other. -/
theorem avoids_of_not_prefix {a b : List String} (ha : ∀ n ∈ a, IsName n)
    (hb : ∀ n ∈ b, IsName n) (h : ¬ a <+: b) :
    ofNames b ≠ ofNames a ∧ startsWith (ofNames a ++ "/") (ofNames b) = false := by
  constructor
  · intro heq
    rw [(ofNames_inj hb ha).1 heq] at h
    exact h (List.prefix_refl a)
  · refine Bool.eq_false_iff.2 fun hstart => h ?_
    obtain ⟨rest, hrest⟩ := exists_append_of_startsWith hstart
    have hsegments := congrArg segments hrest
    rw [segments_cut, segments_ofNames ha, segments_ofNames hb, List.cons_append,
      List.cons.injEq] at hsegments
    exact ⟨_, hsegments.2.symm⟩

end Path

theorem ReleaseId.envPath_eq_ofNames (id : ReleaseId) :
    id.envPath = Path.ofNames (Entry.envRoot id).names := by
  have h := (TemplateSet.derive_envRoot id).symm.trans (Entry.derive_standard (.envRoot id))
  exact (Prod.mk.inj (Except.ok.inj h)).1

theorem Scope.path_eq_ofNames (kind : ConfKind) (scope : Scope) :
    scope.path kind = Path.ofNames (Entry.confRoot kind scope).names := by
  have h := (TemplateSet.derive_confRoot kind scope).symm.trans
    (Entry.derive_standard (.confRoot kind scope))
  exact (Prod.mk.inj (Except.ok.inj h)).1

namespace Entry

/-- The path of the entry. -/
def standardPath (e : Entry) : String := Path.ofNames e.names

theorem cell_standard (e : Entry) :
    Registry.standard.cell e = .ok (e.standardPath, Text.Utf8.encode e.payload) := by
  rw [Registry.cell, Registry.standard, derive_standard]
  rfl

theorem path_standard (e : Entry) : Registry.standard.path e = pure e.standardPath := by
  rw [Registry.path_eq, cell_standard]
  rfl

variable {e e' : Entry}

/-- Admitted entries at one path are of one type and agree in the fields of the path. -/
theorem Admitted.eq_of_path (h : e.Admitted) (h' : e'.Admitted)
    (heq : e.standardPath = e'.standardPath) :
    e.template = e'.template ∧ e.keyFields = e'.keyFields := by
  have hnames := (Path.ofNames_inj h.isName h'.isName).1 heq
  have hidentify := identify_names h
  rw [hnames, identify_names h', Option.some.injEq, Prod.mk.injEq] at hidentify
  exact ⟨hidentify.1.symm, hidentify.2.symm⟩

theorem Admitted.path_ne (h : e.Admitted) (h' : e'.Admitted) (hne : e.template ≠ e'.template) :
    e.standardPath ≠ e'.standardPath := fun heq => hne (h.eq_of_path h' heq).1

theorem Admitted.isValid_path (h : e.Admitted) : Path.isValid e.standardPath = true := by
  have hnames := h.isName
  rw [standardPath]
  cases hlist : e.names with
  | nil =>
    have hidentify := identify_names h
    rw [hlist] at hidentify
    cases hidentify
  | cons n names => exact Path.isValid_ofNames (hlist ▸ hnames)

/-- The entry is stored by an operation of its own. -/
def Registered : Entry → Prop
  | .release _ | .releaseWatch _ | .imageCount .. | .dashboard _ => True
  | _ => False

/-- The names of the templates of registered entries. -/
def registeredTemplates : List String := ["release", "release-watch", "image-count", "dashboard"]

theorem Registered.template_mem (h : e.Registered) : e.template ∈ registeredTemplates := by
  cases e with
  | release r => simp [template, registeredTemplates]
  | releaseWatch id => simp [template, registeredTemplates]
  | imageCount r count => simp [template, registeredTemplates]
  | dashboard d => simp [template, registeredTemplates]
  | _ => exact h.elim

/-- What stands in a directory of variables or objects is not registered. -/
theorem Registered.not_prefix (hregistered : e.Registered) (h : e.Admitted) {root : Entry}
    (hroot : root.Admitted)
    (hdirectory : (∃ id, root = .envRoot id) ∨ ∃ kind scope, root = .confRoot kind scope) :
    ¬ root.names <+: e.names := by
  intro hprefix
  rcases hdirectory with ⟨id, rfl⟩ | ⟨kind, scope, rfl⟩
  · -- The fourth name tells, and dashboards are told by the first one.
    cases e with
    | dashboard d =>
      obtain ⟨hword, -⟩ := List.cons_prefix_cons.1 hprefix
      exact hroot.domain id.domain rfl (by simp [hword])
    | release r => simp [names, ReleaseId.names] at hprefix
    | releaseWatch id' => simp [names, ReleaseId.names] at hprefix
    | imageCount r count => simp [names, ReleaseId.names] at hprefix
    | _ => exact hregistered
  · -- The first name is that of a kind.
    have hkind : kind.name ∈ ["conf", "pkg", "dashboard"] ∧ kind.name ≠ "dashboard" := by
      cases kind <;> decide
    have hword : some kind.name = e.names.head? := by
      obtain ⟨rest, hrest⟩ := hprefix
      rw [← hrest]
      rfl
    cases e with
    | dashboard d => exact hkind.2 (Option.some.inj hword)
    | release r => exact h.domain _ hword.symm hkind.1
    | releaseWatch id' => exact h.domain _ hword.symm hkind.1
    | imageCount r count => exact h.domain _ hword.symm hkind.1
    | _ => exact hregistered

end Entry

/-! ## What an operation does not write -/

namespace Action

variable {α β : Type} {p : String}

/-- The action never writes the node at the path. -/
def Avoids (p : String) (x : Action α) : Prop :=
  x.Keeps (Call.Avoids p) (fun _ => True) fun _ => True

theorem Reads.avoids {x : Action α} (h : x.Reads) (p : String) : x.Avoids p :=
  h.mono (fun _ hc => hc.avoids p) (fun _ h => h) fun _ h => h

theorem Unconditional.avoids {allowed : Call → Prop} {x : Action α} (h : x.Unconditional allowed)
    (hcalls : ∀ c, allowed c → c.Avoids p) : x.Avoids p :=
  h.mono hcalls (fun _ h => h) fun _ _ => trivial

theorem Avoids.bind {x : Action α} {f : α → Action β} (hx : x.Avoids p)
    (hf : ∀ a, (f a).Avoids p) : (x >>= f).Avoids p := Keeps.bind hx fun a _ => hf a

theorem Avoids.map {x : Action α} (hx : x.Avoids p) (f : α → β) :
    (x >>= fun a => pure (f a)).Avoids p := hx.bind fun _ => keeps_pure trivial

theorem Unconditional.avoids_of_path {q : String} {x : Action α}
    (h : x.Unconditional fun c => c.path = q) (hne : q ≠ p) : x.Avoids p :=
  h.avoids fun _ hc _ heq => hne (hc.symm.trans heq)

theorem avoids_put {q : String} {v : Bytes} (h : q ≠ p) : (put q v).Avoids p := by
  have hcalls : (put q v).Unconditional fun c => c.path = q := unconditional_put rfl rfl rfl
  exact hcalls.avoids_of_path h

end Action

theorem Call.Behind.avoids {d p : String} {c : Call} (h : c.Behind d)
    (hp : p ≠ d ∧ Path.startsWith (d ++ "/") p = false) : c.Avoids p := by
  rintro hwrite rfl
  rcases h with hread | rfl | hstart
  · rw [hread.not_isWrite] at hwrite
    cases hwrite
  · exact hp.1 rfl
  · rw [hp.2] at hstart
    cases hstart

theorem ConfRequest.MayCall.behind_of_new {kind : ConfKind} {scope : Scope}
    {objects : OrderedMap Bytes} {c : Call} (h : MayCall (.new kind scope objects) c) :
    c.Behind (scope.path kind) := by
  cases h with
  | read _ hread => exact Or.inl hread
  | createTier _ _ _ => exact Or.inr (Or.inl rfl)
  | createNew _ _ _ => exact Or.inr (Or.inr (Path.startsWith_append _ _))

namespace Registry

variable {p : String}

theorem avoids_store {e : Entry} (h : e.standardPath ≠ p) : (standard.store e).Avoids p := by
  rw [store_eq e.cell_standard]
  exact Action.avoids_put h

theorem avoids_registerContainer {c : Container} (h : (Entry.container c).standardPath ≠ p) :
    (standard.registerContainer c).Avoids p := by
  rw [registerContainer, derive_eq, Entry.cell_standard]
  have hnew : (Action.createNew (Entry.container c).standardPath
      (Text.Utf8.encode (Entry.container c).payload)).Unconditional
      fun call => call.path = (Entry.container c).standardPath :=
    Action.unconditional_createNew rfl
  exact (hnew.avoids_of_path h).map _

theorem avoids_unregisterContainer {c : Container}
    (h : (Entry.container c).standardPath ≠ p) : (standard.unregisterContainer c).Avoids p := by
  rw [unregisterContainer, Entry.path_standard, pure_bind]
  have hdelete : (Action.call (.delete (Entry.container c).standardPath)).Unconditional
      fun call => call.path = (Entry.container c).standardPath := Action.unconditional_call rfl
  exact ((Action.reads_node _).avoids p).bind fun _ => hdelete.avoids_of_path h

end Registry

namespace RegistryStep

/-- The entries that an operation is about. -/
def entries : RegistryStep → List Entry
  | .readEnv id | .newEnv id _ | .saveEnv id _ _ => [.envRoot id]
  | .listConf kind scope | .getConf kind scope _ | .newConf kind scope _
  | .saveConf kind scope _ _ | .deleteConf kind scope _ _ => [.confRoot kind scope]
  | .setRelease r => [.release r]
  | .getRelease id => [.release ⟨id, ""⟩]
  | .touchRelease id => [.releaseWatch id]
  | .setImageCount r count => [.imageCount r count]
  | .getImageCount r | .listContainers r => [.imageCount r 0]
  | .registerContainer c | .unregisterContainer c => [.container c]
  | .livePointer r => [.imageCount r 0, .envRoot r.id]
  | .setLive p => [.live p, .liveWatch p.domain p.service]
  | .getLive domain service => [.live ⟨domain, service, "", ""⟩]
  | .registerDashboard d => [.dashboard d]

/-- The paths of the entries are made of names, with no word in the place of another one. -/
def Admitted (op : RegistryStep) : Prop := ∀ e ∈ op.entries, e.Admitted

instance (op : RegistryStep) : Decidable op.Admitted := inferInstanceAs (Decidable (∀ e ∈ _, _))

/-- The entry that an operation stores, if it does nothing else. -/
def stored? : RegistryStep → Option Entry
  | .setRelease r => some (.release r)
  | .touchRelease id => some (.releaseWatch id)
  | .setImageCount r count => some (.imageCount r count)
  | .registerDashboard d => some (.dashboard d)
  | _ => none

theorem mem_entries_of_stored {op : RegistryStep} {e : Entry}
    (h : op.stored? = some e) : e ∈ op.entries := by
  cases op with
  | setRelease r => cases h; exact List.mem_cons_self
  | touchRelease id => cases h; exact List.mem_cons_self
  | setImageCount r count => cases h; exact List.mem_cons_self
  | registerDashboard d => cases h; exact List.mem_cons_self
  | _ => cases h

theorem action_of_stored {op : RegistryStep} {e : Entry} (h : op.stored? = some e)
    (r : Registry) : op.action r = (r.store e >>= fun _ => pure .done) := by
  cases op with
  | setRelease _ => cases h; rfl
  | touchRelease _ => cases h; rfl
  | setImageCount _ _ => cases h; rfl
  | registerDashboard _ => cases h; rfl
  | _ => cases h

/-- An operation writes a registered entry only where it stores an entry at its path. -/
theorem avoids_action {op : RegistryStep} (hop : op.Admitted) {e : Entry} (he : e.Admitted)
    (hregistered : e.Registered)
    (hother : ∀ e', op.stored? = some e' → e'.standardPath ≠ e.standardPath) :
    (op.action .standard).Avoids e.standardPath := by
  have hdirectory {root : Entry} (hroot : root.Admitted)
      (hkind : (∃ id, root = .envRoot id) ∨ ∃ kind scope, root = .confRoot kind scope) :=
    Path.avoids_of_not_prefix hroot.isName he.isName (hregistered.not_prefix he hroot hkind)
  have henv (id : ReleaseId) (h : (Entry.envRoot id).Admitted) :
      e.standardPath ≠ id.envPath ∧
        Path.startsWith (id.envPath ++ "/") e.standardPath = false := by
    rw [id.envPath_eq_ofNames]
    exact hdirectory h (Or.inl ⟨id, rfl⟩)
  have hconf (kind : ConfKind) (scope : Scope) (h : (Entry.confRoot kind scope).Admitted) :
      e.standardPath ≠ scope.path kind ∧
        Path.startsWith (scope.path kind ++ "/") e.standardPath = false := by
    rw [scope.path_eq_ofNames]
    exact hdirectory h (Or.inr ⟨kind, scope, rfl⟩)
  have hreads {α : Type} {x : Action α} (hx : x.Reads) (f : α → Answer) :
      (x >>= fun a => pure (f a)).Avoids e.standardPath := (hx.avoids _).map f
  have hapart {e' : Entry} (h' : e' ∈ op.entries)
      (hne : e'.template ∉ Entry.registeredTemplates) : e'.standardPath ≠ e.standardPath :=
    (hop e' h').path_ne he fun heq => hne (heq ▸ hregistered.template_mem)
  cases op with
  | readEnv id => exact hreads (Registry.reads_getEnv _ id) _
  | newEnv id vars =>
    have h := henv id (hop _ (by simp [entries]))
    exact (EnvRequest.keeps_action id (.new vars)).mono (fun _ hc => hc.avoids h)
      (fun _ h => h) fun _ h => h
  | saveEnv id change revision =>
    have h := henv id (hop _ (by simp [entries]))
    exact (EnvRequest.keeps_action id (.save change revision)).mono (fun _ hc => hc.avoids h)
      (fun _ h => h) fun _ h => h
  | listConf kind scope => exact hreads (Registry.reads_listConf _ kind scope) _
  | getConf kind scope name => exact hreads (Registry.reads_getConf _ kind scope name) _
  | newConf kind scope objects =>
    have h := hconf kind scope (hop _ (by simp [entries]))
    exact (ConfRequest.new kind scope objects).keeps_action.mono
      (fun _ hc => hc.behind_of_new.avoids h) (fun _ h => h) fun _ h => h
  | saveConf kind scope change revision =>
    have h := hconf kind scope (hop _ (by simp [entries]))
    exact (ConfRequest.save kind scope change revision).keeps_action.mono
      (fun _ hc => hc.inside_of_save.behind.avoids h) (fun _ h => h) fun _ h => h
  | deleteConf kind scope name revision =>
    have h := hconf kind scope (hop _ (by simp [entries]))
    exact (ConfRequest.delete kind scope name revision).keeps_action.mono
      (fun _ hc => hc.inside_of_delete.behind.avoids h) (fun _ h => h) fun _ h => h
  | getRelease id => exact hreads (Registry.reads_getRelease _ id) _
  | getImageCount r => exact hreads (Registry.reads_getImageCount _ r) _
  | listContainers r => exact hreads (Registry.reads_listContainers _ r) _
  | livePointer r => exact hreads (Registry.reads_livePointer _ r) _
  | getLive domain service => exact hreads (Registry.reads_getLive _ domain service) _
  | registerContainer c =>
    have h : (Entry.container c).standardPath ≠ e.standardPath :=
      hapart (by simp [entries]) (by simp [Entry.template, Entry.registeredTemplates])
    exact (Registry.avoids_registerContainer h).map _
  | unregisterContainer c =>
    have h : (Entry.container c).standardPath ≠ e.standardPath :=
      hapart (by simp [entries]) (by simp [Entry.template, Entry.registeredTemplates])
    exact (Registry.avoids_unregisterContainer h).map _
  | setLive p =>
    have hlive : (Entry.live p).standardPath ≠ e.standardPath :=
      hapart (by simp [entries]) (by simp [Entry.template, Entry.registeredTemplates])
    have hwatch : (Entry.liveWatch p.domain p.service).standardPath ≠ e.standardPath :=
      hapart (by simp [entries]) (by simp [Entry.template, Entry.registeredTemplates])
    have hset : (Registry.standard.setLive p).Avoids e.standardPath :=
      (Registry.avoids_store hlive).bind fun _ => Registry.avoids_store hwatch
    exact hset.map _
  | setRelease r => exact (Registry.avoids_store (hother _ rfl)).map _
  | touchRelease id => exact (Registry.avoids_store (hother _ rfl)).map _
  | setImageCount r count => exact (Registry.avoids_store (hother _ rfl)).map _
  | registerDashboard d => exact (Registry.avoids_store (hother _ rfl)).map _

end RegistryStep

end Coordination
