import Coordination.Proofs.Environment.Changes
import Coordination.Proofs.Environment.Reading

/-!
# The registry refines a map of variables

An environment whose nodes contain some variables is read back as these variables. Creating
an environment and admissible changes succeed and lead to nodes that contain what one
expects. From its creation on, an environment that is changed at the revisions at which it is
read is therefore a map of variables, and no group in it is ever left empty.
-/

namespace Coordination

namespace Tree.Contains

variable {t : Tree} {d : String} {env : Env}

/-! ## Reading and writing -/

theorem run_getEnv {r : Registry} {id : ReleaseId} {v₀ : Bytes} (h : t.Contains d env [])
    (hplaces : r.PlacesEnv id d v₀) (hd : d ≠ Path.root) {n : Nat} (hr : t.revision? d = some n) :
    t.run (r.getEnv id).run = (.ok (env, n), t) := by
  obtain ⟨listed, hrun, hlisted⟩ := h.records.run_getEnv hplaces hd hr
  have heq : listed = env := by
    refine OrderedMap.ext_get? fun x => Option.ext fun v => ?_
    rw [hlisted, h.childless_iff hd]
    constructor
    · rintro ⟨⟨y, hy, heq⟩, rfl⟩
      obtain rfl := Path.append_left_cancel heq
      obtain ⟨v, hv⟩ := Option.isSome_iff_exists.1 hy
      rw [hv]
      rfl
    · intro hv
      have hcontains : env.contains x = true := by rw [OrderedMap.contains, hv]; rfl
      exact ⟨⟨x, hcontains, rfl⟩, by rw [hv]; rfl⟩
  rw [hrun, heq]

theorem run_newEnv {r : Registry} {id : ReleaseId} {v₀ : Bytes} (hplaces : r.PlacesEnv id d v₀)
    (ht : t.Sound) (hu : t.locked = none) (hp : Path.isValid d = true) (hd : d ≠ Path.root)
    (hmissing : ¬ t.Has d) {vars : Env} (hvars : vars.WellFormed) :
    ∃ n t', t.run (r.newEnv id vars).run = (.ok n, t') ∧
      t'.revision? d = some n ∧ t'.Contains d vars [] := by
  obtain ⟨root, hnew⟩ := run_createNew_of_not_has hu hp hmissing v₀
  have hempty : OrderedMap.empty.insertAll vars.toList = vars := vars.empty_override
  have hwf : Env.WellFormed (OrderedMap.empty.insertAll vars.toList) := by
    rw [hempty]
    exact hvars
  obtain ⟨t', hmakes, h'⟩ := (of_created ht hu hp hmissing v₀).makes_creates hd vars.nodup_keys
    (fun _ _ => rfl) hwf
  rw [hempty] at h'
  have happly : (t.created d v₀).run (Batch.apply
      ⟨vars.toList.map fun w => (d ++ "/" ++ w.1, Text.Utf8.encode w.2), [], []⟩ [d]).run =
        (.ok ⟨(vars.toList.map fun w => (d ++ "/" ++ w.1, Text.Utf8.encode w.2)).length, 0, 0⟩,
          t') := by
    refine Makes.run_apply ?_ _
    rw [Batch.calls, List.map_nil, List.map_nil, List.append_nil, List.append_nil, List.map_map]
    exact hmakes
  obtain ⟨n, hn⟩ := has_iff_revision?.1 h'.there
  obtain ⟨root, hroot, hrevision⟩ := run_node_of_revision hp hn
  refine ⟨n, t', ?_, hn, h'⟩
  rw [hplaces.newEnv_eq, run_bind_ok hnew, run_bind_ok happly, run_bind_ok hroot, hrevision]
  rfl

theorem run_envWrites {id : ReleaseId} (h : t.Contains id.envPath env [])
    (hd : id.envPath ≠ Path.root) {c : EnvChange} (hc : c.Admissible env) :
    ∃ t', t.run (Registry.envWrites id c).run = (.ok (c.summary env), t') ∧
      t'.Contains id.envPath (c.applyTo env) [] := by
  rw [Registry.envWrites]
  cases hempty : c.isEmpty with
  | true =>
    obtain ⟨henv, hsummary⟩ := EnvChange.of_isEmpty hempty env
    rw [henv, hsummary]
    exact ⟨t, rfl, h⟩
  | false =>
    have hwrites : ∀ w ∈ Registry.variableCells id c.update, Path.isValid w.1 = true := by
      intro w hw
      obtain ⟨o, ho, rfl⟩ := List.mem_map.1 hw
      have hkey := EnvChange.mem_override env (OrderedMap.get?_eq_some_iff.2 ho)
      exact Path.isValid_cut h.valid hd (hc.2.1.1 o.1 hkey)
    have hdeletes : ∀ p ∈ c.delete.keys.map fun x => id.envPath ++ "/" ++ x,
        Path.isValid p = true := by
      intro p hp
      obtain ⟨x, hx, rfl⟩ := List.mem_map.1 hp
      exact Path.isValid_cut h.valid hd (hc.2.2 x hx).1
    obtain ⟨t₁, hmakes, h₁, hsummary⟩ := h.makes_planned hd hc
    have happly := hmakes.run_apply []
    rw [hsummary] at happly
    obtain ⟨n, t₂, hprune, h₂⟩ := run_pruneGroups hd
      (fun p hp => h.not_below_of_mem_deletes hd hc hp) h₁
    refine ⟨t₂, ?_, h₂⟩
    rw [if_neg Bool.false_ne_true, run_bind_ok (run_plan t hwrites hdeletes)]
    exact (run_bind_ok happly).trans (run_bind_ok hprune)

end Tree.Contains

/-! ## Runs -/

/-- A change at the revision at which the environment is read. -/
def Registry.editEnv (r : Registry) (id : ReleaseId) (c : EnvChange) : Action ChangeSummary := do
  let (_, revision) ← r.getEnv id
  r.saveEnv id c revision

namespace Service

/-- The service after changes of an environment, each at the revision at which the environment
is read just before. -/
def edits (id : ReleaseId) (s : Service) : List EnvChange → Service
  | [] => s
  | c :: rest => edits id (s.run (Registry.standard.editEnv id c).run).2 rest

end Service

namespace Env

/-- The variables after changes. -/
def edits (env : Env) : List EnvChange → Env
  | [] => env
  | c :: rest => edits (c.applyTo env) rest

/-- Each change is admissible for the variables that those before it leave. -/
def Admits (env : Env) : List EnvChange → Prop
  | [] => True
  | c :: rest => c.Admissible env ∧ Admits (c.applyTo env) rest

instance decidableAdmits : (env : Env) → (changes : List EnvChange) →
    Decidable (env.Admits changes)
  | _, [] => isTrue trivial
  | env, c :: rest =>
    have := decidableAdmits (c.applyTo env) rest
    inferInstanceAs (Decidable (_ ∧ _))

end Env

namespace Service

variable {s : Service} {id : ReleaseId} {env : Env}

/-- A service without faults where the environment contains the variables. -/
structure Stores (s : Service) (id : ReleaseId) (env : Env) : Prop where
  faults : s.faults = []
  contents : s.tree.Contains id.envPath env []

theorem Stores.read (h : s.Stores id env) :
    ∃ r s', s.run (Registry.standard.getEnv id).run = (.ok (env, r), s') ∧
      s'.tree.revision? id.envPath = some r ∧ s'.Stores id env := by
  obtain ⟨r, hr⟩ := Tree.has_iff_revision?.1 h.contents.there
  have hget := h.contents.run_getEnv (Registry.placesEnv_standard id) id.envPath_ne_root hr
  obtain ⟨hreply, htree, hfaults⟩ :=
    run_of_faults_eq_nil (Registry.standard.getEnv id).run h.faults
  rw [hget] at hreply htree
  exact ⟨r, _, Prod.ext hreply rfl, htree ▸ hr, hfaults, htree ▸ h.contents⟩

theorem Stores.save (h : s.Stores id env) {c : EnvChange} (hc : c.Admissible env) {r : Nat}
    (hr : s.tree.revision? id.envPath = some r) :
    (s.run (Registry.standard.saveEnv id c r).run).1 = .ok (c.summary env) ∧
      (s.run (Registry.standard.saveEnv id c r).run).2.Stores id (c.applyTo env) := by
  obtain ⟨t', hwrites, ht'⟩ := h.contents.run_envWrites id.envPath_ne_root hc
  obtain ⟨hreply, htree, hfaults⟩ :=
    run_of_faults_eq_nil (Registry.standard.saveEnv id c r).run h.faults
  have hrun : s.tree.run (Action.checked id.envPath r (Registry.envWrites id c)).run = _ :=
    Tree.run_checked_of_eq h.contents.valid hr rfl
  rw [← Registry.saveEnv_standard, hwrites] at hrun
  rw [hrun] at hreply htree
  exact ⟨hreply, hfaults, htree ▸ ht'⟩

theorem Stores.edit (h : s.Stores id env) {c : EnvChange} (hc : c.Admissible env) :
    (s.run (Registry.standard.editEnv id c).run).2.Stores id (c.applyTo env) := by
  obtain ⟨r, s', hget, hr, hs'⟩ := h.read
  have hrun : s.run (Registry.standard.editEnv id c).run = _ := Action.run_bind_ok hget
  rw [hrun]
  exact (hs'.save hc hr).2

theorem Stores.edits (h : s.Stores id env) {changes : List EnvChange}
    (hchanges : env.Admits changes) : (s.edits id changes).Stores id (env.edits changes) := by
  induction changes generalizing s env with
  | nil => exact h
  | cons c rest ih =>
    obtain ⟨hc, hrest⟩ := hchanges
    exact ih (h.edit hc) hrest

/-- Creating an environment succeeds, and after any admissible changes, each made at the
revision read just before, it is read as the variables that one expects; the next admissible
change succeeds as well and counts what it adds, overwrites and takes away; and the nodes
without children below the environment are its variables. -/
theorem edits_refine_variables {s : Service} (hs : s.FaultFree) (hreachable : s.tree.Reachable)
    {id : ReleaseId} (hvalid : Path.isValid id.envPath = true)
    (habsent : ¬ s.tree.Has id.envPath) {vars : Env} (hvars : vars.WellFormed)
    {changes : List EnvChange} (hchanges : vars.Admits changes) :
    let created := s.run (Registry.standard.newEnv id vars).run
    let now := created.2.edits id changes
    let read := now.run (Registry.standard.getEnv id).run
    (∃ r, created.1 = .ok r) ∧
      (∃ r, read.1 = .ok (vars.edits changes, r) ∧
        ∀ c, c.Admissible (vars.edits changes) →
          (read.2.run (Registry.standard.saveEnv id c r).run).1 =
            .ok (c.summary (vars.edits changes))) ∧
      ∀ q, (now.tree.Has q ∧ Path.Below id.envPath q ∧ now.tree.childPaths q = []) ↔
        ∃ x, (vars.edits changes).contains x = true ∧ q = id.envPath ++ "/" ++ x := by
  intro created now read
  obtain ⟨r₀, t', hnew, _, ht'⟩ := Tree.Contains.run_newEnv
    (Registry.placesEnv_standard id) hreachable.sound hs.unlocked hvalid id.envPath_ne_root
    habsent hvars
  obtain ⟨hreply, htree, hfaults⟩ :=
    run_of_faults_eq_nil (Registry.standard.newEnv id vars).run hs.faults
  rw [hnew] at hreply htree
  have hstores : created.2.Stores id vars := ⟨hfaults, htree ▸ ht'⟩
  have hnow : now.Stores id (vars.edits changes) := hstores.edits hchanges
  obtain ⟨r, s', hget, hr, hs'⟩ := hnow.read
  refine ⟨⟨r₀, hreply⟩, ⟨r, congrArg Prod.fst hget, fun c hc => ?_⟩,
    fun q => hnow.contents.childless_iff id.envPath_ne_root⟩
  have hread : read.2 = s' := congrArg Prod.snd hget
  rw [hread]
  exact (hs'.save hc hr).1

end Service

namespace Nested

/-- A release. -/
def id : ReleaseId := ⟨"d", "s", "v"⟩

/-- Variables in groups, one of them within another. -/
def vars : Env :=
  ((OrderedMap.empty.insert "PORT" "80").insert "db/HOST" "h").insert "db/pool/MAX" "4"

/-- The last variable of the inner group moves to a new group, and then that of the outer
group is deleted. -/
def changes : List EnvChange :=
  [⟨OrderedMap.empty.insert "pool/MAX" "8", OrderedMap.empty.insert "db/pool/MAX" ()⟩,
    ⟨.empty, OrderedMap.empty.insert "db/HOST" ()⟩]

/-- The service after the changes. -/
def changed : Service :=
  (Service.fresh.run (Registry.standard.newEnv id vars).run).2.edits id changes

/-- The remaining variables are read, and nothing is left of the groups. -/
theorem groups_deleted :
    (∃ r, (changed.run (Registry.standard.getEnv id).run).1 =
      .ok ((OrderedMap.empty.insert "PORT" "80").insert "pool/MAX" "8", r)) ∧
      ¬ changed.tree.Has (id.envPath ++ "/db") := by
  obtain ⟨_, ⟨r, hread, _⟩, _⟩ := @Service.edits_refine_variables .fresh ⟨rfl, rfl⟩ .empty id
    (by decide +kernel) (by decide +kernel) vars (by decide +kernel) changes
    (by decide +kernel)
  have henv : vars.edits changes =
      (OrderedMap.empty.insert "PORT" "80").insert "pool/MAX" "8" := by decide +kernel
  exact ⟨⟨r, henv ▸ hread⟩, by decide +kernel⟩

end Nested

end Coordination
