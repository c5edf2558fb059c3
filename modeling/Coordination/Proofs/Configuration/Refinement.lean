import Coordination.Proofs.Configuration.Store

/-!
# The registry refines independent maps

On a tree that represents a store, every request is answered as the store answers it and
leads to a tree that represents the store afterwards; where the answer is an error the tree
stays as it is. From the empty tree on, a service without faults is therefore not to be told
from the store by any sequence of requests.
-/

namespace Coordination

namespace Tree.Represents

variable {t : Tree} {m : ConfStore} {kind : ConfKind} {scope : Scope}

/-! ## Reading -/

theorem run_listConf (hm : t.Represents m) (hscope : scope.Named) :
    t.run (Registry.standard.listConf kind scope).run = (m.list kind scope, t) := by
  have hp := Scope.isValid_path kind hscope
  have hplaces := Registry.placesTier_standard kind scope
  rw [ConfStore.list]
  cases hdir : m kind scope with
  | none =>
    rw [hplaces.listConf_eq]
    exact run_bind_error (run_node_of_not_has hp (hm.absent kind scope hscope hdir))
  | some dir =>
    exact (hm.present kind scope dir hscope hdir).run_listConf hplaces hm.sound
      (Scope.path_ne_root kind hscope)

theorem run_readConf (hm : t.Represents m) (hscope : scope.Named) {name : String}
    (hname : Path.IsName name) :
    t.run (Registry.standard.readConf kind scope name).run = (m.read kind scope name, t) := by
  have hp := Scope.isValid_path kind hscope
  have hplaces := Registry.placesTier_standard kind scope
  rw [ConfStore.read]
  cases hdir : m kind scope with
  | none =>
    rw [hplaces.readConf_eq]
    exact run_bind_error (run_node_of_not_has hp (hm.absent kind scope hscope hdir))
  | some dir =>
    exact (hm.present kind scope dir hscope hdir).run_readConf hplaces hm.sound
      (Scope.path_ne_root kind hscope) hname

theorem read_error {name : String} {e : RegistryError} (h : m.read kind scope name = .error e) :
    ∃ path, e = .notFound path := by
  rw [ConfStore.read] at h
  split at h
  · cases h
    exact ⟨_, rfl⟩
  · split at h
    · cases h
      exact ⟨_, rfl⟩
    · cases h

theorem run_getConf (hm : t.Represents m) (hscope : scope.Named) {name : String}
    (hname : Path.IsName name) :
    t.run (Registry.standard.getConf kind scope name).run = (m.get kind scope name, t) := by
  have hread : Program.run respond (Registry.standard.readConf kind scope name).run t =
      (m.read kind scope name, t) := hm.run_readConf hscope hname
  have htry : t.run (Registry.standard.getConf kind scope name).run = _ :=
    Action.run_tryCatch (Registry.standard.readConf kind scope name) _ t
  rw [htry, ConfStore.get, hread]
  cases hown : m.read kind scope name with
  | ok o => rfl
  | error e =>
    obtain ⟨path, rfl⟩ := read_error hown
    cases hbase : scope.fallback? with
    | none => rfl
    | some base => exact hm.run_readConf (hscope.fallback hbase) hname

/-! ## Writing -/

theorem run_newConf (hm : t.Represents m) (hscope : scope.Named) {objects : OrderedMap Bytes}
    (hnames : ∀ name ∈ objects.keys, Path.IsName name) (hnone : m kind scope = none) :
    ∃ t', t.run (Registry.standard.newConf kind scope objects).run = (.ok objects.size, t') ∧
      t'.Represents (m.put kind scope (.fresh objects)) := by
  obtain ⟨t', hrun, hmakes, hholds⟩ := Tree.run_newConf
    (Registry.placesTier_standard kind scope) hm.sound hm.unlocked
    (Scope.isValid_path kind hscope) (Scope.path_ne_root kind hscope)
    (hm.absent kind scope hscope hnone) hnames
  refine ⟨t', hrun, hm.put hmakes hscope (fun c hc => ?_) hholds⟩
  rcases List.mem_cons.1 hc with rfl | hc
  · exact Or.inl rfl
  · obtain ⟨o, ho, rfl⟩ := List.mem_map.1 hc
    exact Or.inr ⟨o.1, hnames o.1 (List.mem_map_of_mem ho), rfl⟩

theorem run_confWrites (hm : t.Represents m) (hscope : scope.Named) {change : ConfChange}
    (hupdate : ∀ name ∈ change.update.keys, Path.IsName name)
    (hdelete : ∀ name ∈ change.delete.keys, Path.IsName name)
    (hdisjoint : ∀ name ∈ change.update.keys, name ∉ change.delete.keys) {dir : Directory}
    (hdir : m kind scope = some dir) :
    ∃ t', t.run (Registry.confWrites kind scope change).run =
        (.ok (dir.summary change.update change.delete.keys), t') ∧
      t'.Represents (m.put kind scope (dir.change change.update change.delete.keys)) := by
  have hp := Scope.isValid_path kind hscope
  have hroot := Scope.path_ne_root kind hscope
  have hwrites : ∀ w ∈ Registry.objectCells kind scope change.update,
      Path.isValid w.1 = true := by
    intro w hw
    obtain ⟨o, ho, rfl⟩ := List.mem_map.1 hw
    exact Scope.isValid_objectPath kind hscope (hupdate o.1 (List.mem_map_of_mem ho))
  have hdeletes : ∀ p ∈ change.delete.keys.map (scope.objectPath kind),
      Path.isValid p = true := by
    intro p hmem
    obtain ⟨name, hname, rfl⟩ := List.mem_map.1 hmem
    exact Scope.isValid_objectPath kind hscope (hdelete name hname)
  obtain ⟨t', hmakes, hholds, hsummary⟩ :=
    (hm.present kind scope dir hscope hdir).makes_planned hm.sound hm.unlocked hp hroot hupdate
      hdelete change.delete.nodup_keys hdisjoint
  have hplan := run_plan t hwrites hdeletes
  refine ⟨t', ?_, hm.put hmakes hscope (fun c hc => ?_) hholds⟩
  · rw [Registry.confWrites, run_bind_ok hplan]
    exact (hmakes.run_apply []).trans (by rw [hsummary])
  · rcases path_of_mem_planned hc with ⟨w, hw, hpath⟩ | hpath
    · obtain ⟨o, ho, rfl⟩ := List.mem_map.1 hw
      exact Or.inr ⟨o.1, hupdate o.1 (List.mem_map_of_mem ho), hpath⟩
    · obtain ⟨name, hname, hpath⟩ := List.mem_map.1 hpath
      exact Or.inr ⟨name, hdelete name hname, hpath.symm⟩

theorem run_confDeletion (hm : t.Represents m) (hscope : scope.Named) {name : String}
    (hname : Path.IsName name) {dir : Directory} (hdir : m kind scope = some dir)
    (hcontains : dir.values.contains name = true) :
    ∃ t', t.run (Registry.confDeletion kind scope name).run = (.ok (dir.revision + 1), t') ∧
      t'.Represents (m.put kind scope ⟨dir.values.erase name, dir.revision + 1⟩) := by
  have hp := Scope.isValid_path kind hscope
  have hroot := Scope.path_ne_root kind hscope
  have hobject := Scope.isValid_objectPath kind hscope hname
  have hholds := hm.present kind scope dir hscope hdir
  have hhas := (hholds.has_child_iff hname).2 hcontains
  obtain ⟨c, hc⟩ := has_iff_get?.1 hhas
  have hparent := Path.parent?_child hp hroot hname
  have hleaf := hholds.childPaths_child hm.sound hp hroot hname
  have hdelete := respond_delete_of_leaf hm.unlocked hobject hhas hparent hleaf
  have hcall := run_call_delete hm.unlocked hobject hhas hparent hleaf
  have hholds' := hholds.removed hroot hname
  obtain ⟨root, hnode, hrevision⟩ := run_node_of_revision hp hholds'.revision
  refine ⟨t.removed (scope.objectPath kind name) (scope.path kind), ?_,
    hm.put (.cons hdelete (.nil _)) hscope ?_ hholds'⟩
  · rw [Registry.confDeletion, run_bind_ok (run_node_of_get? hobject hc), run_bind_ok hcall]
    rw [show scope.objectPath kind name = scope.path kind ++ "/" ++ name from rfl,
      run_bind_ok hnode, hrevision]
    rfl
  · exact List.forall_mem_singleton.2 (Or.inr ⟨name, hname, rfl⟩)

end Tree.Represents

/-! ## Requests -/

/-- On a tree a request is answered as by the store and leads to what represents the store
then; an error leaves the tree as it is. -/
structure Tree.Simulates (t : Tree) (m : ConfStore) (q : ConfRequest) : Prop where
  answer : (t.run q.action.run).1 = (m.serve q).1
  represents : (t.run q.action.run).2.Represents (m.serve q).2
  unchanged : ∀ e, (m.serve q).1 = .error e → (t.run q.action.run).2 = t

namespace Tree

variable {t : Tree} {m : ConfStore} {kind : ConfKind} {scope : Scope}

theorem simulates_of_ok {t' : Tree} {m' : ConfStore} {q : ConfRequest} {a : Answer}
    (hrun : t.run q.action.run = (.ok a, t')) (hserve : m.serve q = (.ok a, m'))
    (hm : t'.Represents m') : t.Simulates m q := by
  refine ⟨?_, ?_, fun e he => ?_⟩
  · rw [hrun, hserve]
  · rw [hrun, hserve]
    exact hm
  · rw [hserve] at he
    cases he

theorem simulates_of_unchanged {q : ConfRequest} {r : Except RegistryError Answer}
    (hrun : t.run q.action.run = (r, t)) (hserve : m.serve q = (r, m))
    (hm : t.Represents m) : t.Simulates m q := by
  refine ⟨?_, ?_, fun e he => ?_⟩
  · rw [hrun, hserve]
  · rw [hrun, hserve]
    exact hm
  · rw [hrun]

namespace Represents

theorem simulates_list (hm : t.Represents m) (hscope : scope.Named) :
    t.Simulates m (.list kind scope) := by
  have hrun : t.run (ConfRequest.list kind scope).action.run = _ :=
    run_map (Registry.standard.listConf kind scope) fun l => Answer.names l.1 l.2
  rw [hm.run_listConf hscope] at hrun
  exact simulates_of_unchanged hrun rfl hm

theorem simulates_get (hm : t.Represents m) (hscope : scope.Named) {name : String}
    (hname : Path.IsName name) : t.Simulates m (.get kind scope name) := by
  have hrun : t.run (ConfRequest.get kind scope name).action.run = _ :=
    run_map (Registry.standard.getConf kind scope name) Answer.object
  rw [hm.run_getConf hscope hname] at hrun
  exact simulates_of_unchanged hrun rfl hm

theorem simulates_new (hm : t.Represents m) (hscope : scope.Named) {objects : OrderedMap Bytes}
    (hnames : ∀ name ∈ objects.keys, Path.IsName name) :
    t.Simulates m (.new kind scope objects) := by
  have hrun : t.run (ConfRequest.new kind scope objects).action.run = _ :=
    run_map (Registry.standard.newConf kind scope objects) Answer.number
  cases hdir : m kind scope with
  | none =>
    obtain ⟨t', hnew, hm'⟩ := hm.run_newConf hscope hnames hdir
    rw [hnew] at hrun
    exact simulates_of_ok hrun (by simp only [ConfStore.serve, hdir]) hm'
  | some dir =>
    have hhas := (hm.present kind scope dir hscope hdir).has
    rw [Registry.newConf_standard, run_bind_error
      (run_createNew_of_has hm.unlocked (Scope.isValid_path kind hscope) hhas [])] at hrun
    exact simulates_of_unchanged hrun (by simp only [ConfStore.serve, hdir]; rfl) hm

theorem simulates_save (hm : t.Represents m) (hscope : scope.Named) {change : ConfChange}
    (hupdate : ∀ name ∈ change.update.keys, Path.IsName name)
    (hdelete : ∀ name ∈ change.delete.keys, Path.IsName name)
    (hdisjoint : ∀ name ∈ change.update.keys, name ∉ change.delete.keys) (expected : Nat) :
    t.Simulates m (.save kind scope change expected) := by
  have hp := Scope.isValid_path kind hscope
  have hrun : t.run (ConfRequest.save kind scope change expected).action.run = _ :=
    run_map (Registry.standard.saveConf kind scope change expected) Answer.summary
  rw [Registry.saveConf_standard] at hrun
  cases hdir : m kind scope with
  | none =>
    rw [run_checked_of_not_has hp (hm.absent kind scope hscope hdir)] at hrun
    exact simulates_of_unchanged hrun (by simp only [ConfStore.serve, hdir]; rfl) hm
  | some dir =>
    have hrevision := (hm.present kind scope dir hscope hdir).revision
    by_cases h : dir.revision = expected
    · obtain ⟨t', hwrites, hm'⟩ := hm.run_confWrites hscope hupdate hdelete hdisjoint hdir
      rw [run_checked_of_eq hp hrevision h, hwrites] at hrun
      exact simulates_of_ok hrun (by simp only [ConfStore.serve, hdir, if_pos h]) hm'
    · rw [run_checked_of_ne hp hrevision h] at hrun
      exact simulates_of_unchanged hrun
        (by simp only [ConfStore.serve, hdir, if_neg h]; rfl) hm

theorem simulates_delete (hm : t.Represents m) (hscope : scope.Named) {name : String}
    (hname : Path.IsName name) (expected : Nat) :
    t.Simulates m (.delete kind scope name expected) := by
  have hp := Scope.isValid_path kind hscope
  have hrun : t.run (ConfRequest.delete kind scope name expected).action.run = _ :=
    run_map (Registry.standard.deleteConf kind scope name expected) Answer.number
  rw [Registry.deleteConf_standard] at hrun
  cases hdir : m kind scope with
  | none =>
    rw [run_checked_of_not_has hp (hm.absent kind scope hscope hdir)] at hrun
    exact simulates_of_unchanged hrun (by simp only [ConfStore.serve, hdir]; rfl) hm
  | some dir =>
    have hholds := hm.present kind scope dir hscope hdir
    by_cases h : dir.revision = expected
    · rw [run_checked_of_eq hp hholds.revision h] at hrun
      cases hcontains : dir.values.contains name with
      | true =>
        obtain ⟨t', hdeletion, hm'⟩ := hm.run_confDeletion hscope hname hdir hcontains
        rw [hdeletion] at hrun
        exact simulates_of_ok hrun
          (by simp only [ConfStore.serve, hdir, if_pos h, hcontains, if_true]) hm'
      | false =>
        have hmissing : ¬ t.Has (scope.objectPath kind name) := by
          rw [Scope.objectPath, hholds.has_child_iff hname, hcontains]
          exact Bool.false_ne_true
        have hobject := Scope.isValid_objectPath kind hscope hname
        rw [Registry.confDeletion, run_bind_error (run_node_of_not_has hobject hmissing)] at hrun
        refine simulates_of_unchanged hrun ?_ hm
        simp only [ConfStore.serve, hdir, if_pos h, hcontains, Bool.false_eq_true, if_false]
        rfl
    · rw [run_checked_of_ne hp hholds.revision h] at hrun
      exact simulates_of_unchanged hrun
        (by simp only [ConfStore.serve, hdir, if_neg h]; rfl) hm

theorem simulates (hm : t.Represents m) {q : ConfRequest} (hq : q.Admissible) :
    t.Simulates m q := by
  obtain ⟨⟨hscope, hnames⟩, hsplit⟩ := hq
  cases q with
  | list kind scope => exact hm.simulates_list hscope
  | get kind scope name =>
    exact hm.simulates_get hscope (hnames name (List.mem_singleton_self name))
  | new kind scope objects => exact hm.simulates_new hscope hnames
  | save kind scope change expected =>
    exact hm.simulates_save hscope (fun name h => hnames name (List.mem_append_left _ h))
      (fun name h => hnames name (List.mem_append_right _ h)) hsplit expected
  | delete kind scope name expected =>
    exact hm.simulates_delete hscope (hnames name (List.mem_singleton_self name)) expected

end Represents

end Tree

/-! ## Runs -/

/-- A service without faults whose tree represents a store. -/
theorem Service.serve_of_represents {s : Service} {m : ConfStore} (hs : s.faults = [])
    (hm : s.tree.Represents m) {q : ConfRequest} (hq : q.Admissible) :
    (q.serve s).2.faults = [] ∧ (q.serve s).2.tree.Represents (m.serve q).2 := by
  obtain ⟨_, htree, hfaults⟩ := run_of_faults_eq_nil q.action.run hs
  exact ⟨hfaults, htree ▸ (hm.simulates hq).represents⟩

theorem Service.after_represents {s : Service} {m : ConfStore} (hs : s.faults = [])
    (hm : s.tree.Represents m) {requests : List ConfRequest}
    (hrequests : ∀ q ∈ requests, q.Admissible) :
    (s.after (requests.map .request)).faults = [] ∧
      (s.after (requests.map .request)).tree.Represents (m.after requests) := by
  induction requests generalizing s m with
  | nil => exact ⟨hs, hm⟩
  | cons q rest ih =>
    obtain ⟨hq, hrest⟩ := List.forall_mem_cons.1 hrequests
    obtain ⟨hfaults, hrepresents⟩ := serve_of_represents hs hm hq
    exact ih hfaults hrepresents hrest

/-- After any requests, a request to a fresh service is answered as by the independent maps,
and one that is answered with an error changes nothing. -/
theorem serve_eq_store_serve {requests : List ConfRequest} {q : ConfRequest}
    (hrequests : ∀ p ∈ requests, p.Admissible) (hq : q.Admissible) :
    let s := Service.fresh.after (requests.map .request)
    let m := ConfStore.empty.after requests
    (q.serve s).1 = (m.serve q).1 ∧
      ∀ e, (q.serve s).1 = .error e → (q.serve s).2.tree = s.tree := by
  intro s m
  obtain ⟨hfaults, hm⟩ : s.faults = [] ∧ s.tree.Represents m :=
    Service.after_represents rfl Tree.represents_empty hrequests
  obtain ⟨hreply, htree, _⟩ := Service.run_of_faults_eq_nil q.action.run hfaults
  have hsimulates := hm.simulates hq
  have hanswer : (q.serve s).1 = (m.serve q).1 := hreply.trans hsimulates.answer
  refine ⟨hanswer, fun e he => ?_⟩
  exact htree.trans (hsimulates.unchanged e (hanswer.symm.trans he))

namespace Fallback

/-- A base tier. -/
def base : Scope := .base "eu" "web"

/-- An override tier in front of it. -/
def override : Scope := .override "eu" "eu1" "web" "v1"

/-- Both tiers are created, and one object is taken out of the override tier again. -/
def requests : List ConfRequest :=
  [.new .config base ((OrderedMap.empty.insert "a" [1]).insert "b" [2]),
    .new .config override (OrderedMap.empty.insert "a" [3]),
    .save .config override ⟨OrderedMap.empty.insert "c" [4], OrderedMap.empty.insert "a" ()⟩ 1]

/-- The object that the override tier lacks is the one of the base tier, with its revision. -/
theorem served_by_base :
    ((ConfRequest.get .config override "a").serve
      (Service.fresh.after (requests.map .request))).1 =
        .ok (.object ⟨"a", [1], .base, 2⟩) := by
  rw [(serve_eq_store_serve (by decide +kernel) (by decide +kernel)).1]
  rfl

end Fallback

end Coordination
