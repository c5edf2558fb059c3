import Coordination.Proofs.Configuration.Requests
import Coordination.Proofs.Tree.Revision

/-!
# Writes on a condition

The revision of a tier that a reply gives is one that the tier leaves as soon as an object is
added or removed, and never comes back to. A later write on the condition of that revision is
refused by the check of the revision exactly if the objects of the tier were others at some
time since, whatever other requests, failures and refused writes there were; and a request
that the check refuses leaves the tree as it is.
-/

namespace Coordination

/-- The trees that a service goes through in a step, call by call. -/
def ConfStep.trees (s : Service) : ConfStep → List Tree
  | .request q => s.trees q.action.run
  | step => [s.tree, (step.after s).tree]

/-- The trees that a service goes through in steps, call by call. -/
def Service.treesSince (s : Service) : List ConfStep → List Tree
  | [] => [s.tree]
  | step :: rest => step.trees s ++ (step.after s).treesSince rest

/-- The paths of the objects of a tier. -/
def Tree.objectPaths (t : Tree) (kind : ConfKind) (scope : Scope) : List String :=
  t.childPaths (scope.path kind)

/-! ## Steps and the tree -/

theorem ConfStep.sound_after {s : Service} (hs : s.tree.Sound) (step : ConfStep) :
    (step.after s).tree.Sound := by
  cases step with
  | request q => exact Service.sound_run _ hs
  | fault f => exact hs
  | refuseWrites start => exact hs.of_cells rfl
  | allowWrites => exact hs.of_cells rfl

theorem Service.sound_after {s : Service} (hs : s.tree.Sound) (steps : List ConfStep) :
    (s.after steps).tree.Sound := by
  induction steps generalizing s with
  | nil => exact hs
  | cons step rest ih => exact ih (step.sound_after hs)

section

variable {kind : ConfKind} {scope : Scope}

/-- Through a step, the revision of a tier counts the changes of its objects. -/
theorem ConfStep.passage {step : ConfStep} (hstep : step.Proper) (hscope : scope.Named)
    {s : Service} (hs : s.tree.Sound) (htier : s.tree.Has (scope.path kind)) :
    Tree.Passage (scope.path kind) s.tree (step.trees s) (step.after s).tree := by
  cases step with
  | request q =>
    have hkeeps := q.keeps_action.mono (fun c hc => ConfRequest.ne_delete_of_mayCall hstep kind
      hscope hc) (fun _ h => h) fun _ h => h
    exact Service.passage_run hkeeps hs htier
  | fault f => exact .of_cells hs htier rfl
  | refuseWrites start => exact .of_cells hs htier rfl
  | allowWrites => exact .of_cells hs htier rfl

theorem Service.passage_after {steps : List ConfStep} (hsteps : ∀ step ∈ steps, step.Proper)
    (hscope : scope.Named) {s : Service} (hs : s.tree.Sound)
    (htier : s.tree.Has (scope.path kind)) :
    Tree.Passage (scope.path kind) s.tree (s.treesSince steps) (s.after steps).tree := by
  induction steps generalizing s with
  | nil => exact .refl hs htier
  | cons step rest ih =>
    obtain ⟨hstep, hrest⟩ := List.forall_mem_cons.1 hsteps
    have hpassage := ConfStep.passage hstep hscope hs htier
    exact hpassage.trans (ih hrest hpassage.sound hpassage.has)

end

/-! ## Revisions in replies -/

namespace ConfRequest

/-- The tier that a reply gives the revision of, with the revision: for an object, the tier
that it came from. -/
def reported? : ConfRequest → Except RegistryError Answer → Option (ConfKind × Scope × Nat)
  | .list kind scope, .ok (.names _ r) => some (kind, scope, r)
  | .get kind scope _, .ok (.object o) =>
    if o.tier = scope.tier then some (kind, scope, o.revision)
    else scope.fallback?.map fun base => (kind, base, o.revision)
  | .new kind scope _, .ok (.number r) => some (kind, scope, r)
  | .delete kind scope _ _, .ok (.number r) => some (kind, scope, r)
  | _, _ => none

/-- The tier and the revision that a write is conditional on. -/
def condition? : ConfRequest → Option (ConfKind × Scope × Nat)
  | .save kind scope _ r => some (kind, scope, r)
  | .delete kind scope _ r => some (kind, scope, r)
  | _ => none

end ConfRequest

section

variable {s s' : Service} {kind : ConfKind} {scope : Scope} {name : String} {r : Nat}

theorem revision?_of_listConf {names : List String}
    (h : s.run (Registry.standard.listConf kind scope).run = (.ok (names, r), s')) :
    s'.tree.revision? (scope.path kind) = some r := by
  rw [Service.tree_of_reads (ConfRequest.unconditional_list fun _ hc => hc) h]
  rw [Registry.listConf_standard] at h
  obtain ⟨root, s₁, hroot, h⟩ := Service.exists_of_run_bind_eq_ok h
  obtain ⟨nodes, s₂, _, h⟩ := Service.exists_of_run_bind_eq_ok h
  cases h
  exact (Service.revision?_of_run_node hroot).2

theorem revision?_of_newConf {objects : OrderedMap Bytes}
    (h : s.run (Registry.standard.newConf kind scope objects).run = (.ok r, s')) :
    s'.tree.revision? (scope.path kind) = some r := by
  rw [Registry.newConf_standard] at h
  obtain ⟨_, s₁, _, h⟩ := Service.exists_of_run_bind_eq_ok h
  obtain ⟨_, s₂, _, h⟩ := Service.exists_of_run_bind_eq_ok h
  obtain ⟨root, s₃, hroot, h⟩ := Service.exists_of_run_bind_eq_ok h
  obtain ⟨htree, hrevision⟩ := Service.revision?_of_run_node hroot
  cases h
  rw [htree, hrevision]

theorem revision?_of_deleteConf {expected : Nat}
    (h : s.run (Registry.standard.deleteConf kind scope name expected).run = (.ok r, s')) :
    s'.tree.revision? (scope.path kind) = some r := by
  rw [Registry.deleteConf_standard] at h
  obtain ⟨_, s₁, _, h⟩ := Service.exists_of_run_bind_eq_ok h
  obtain ⟨_, s₂, _, h⟩ := Service.exists_of_run_bind_eq_ok h
  obtain ⟨_, s₃, _, h⟩ := Service.exists_of_run_bind_eq_ok h
  obtain ⟨_, s₄, _, h⟩ := Service.exists_of_run_bind_eq_ok h
  obtain ⟨root, s₅, hroot, h⟩ := Service.exists_of_run_bind_eq_ok h
  obtain ⟨htree, hrevision⟩ := Service.revision?_of_run_node hroot
  cases h
  rw [htree, hrevision]

theorem revision?_of_readConf {o : ConfObject}
    (h : s.run (Registry.standard.readConf kind scope name).run = (.ok o, s')) :
    s.tree.revision? (scope.path kind) = some o.revision ∧ o.tier = scope.tier := by
  rw [Registry.readConf_standard] at h
  obtain ⟨root, s₁, hroot, h⟩ := Service.exists_of_run_bind_eq_ok h
  obtain ⟨object, s₂, _, h⟩ := Service.exists_of_run_bind_eq_ok h
  obtain ⟨_, hrevision⟩ := Service.revision?_of_run_node hroot
  cases h
  exact ⟨hrevision, rfl⟩

/-- An object that is read came from the tier that was asked for, or from the one behind it. -/
theorem revision?_of_getConf {o : ConfObject}
    (h : s.run (Registry.standard.getConf kind scope name).run = (.ok o, s')) :
    (s.tree.revision? (scope.path kind) = some o.revision ∧ o.tier = scope.tier) ∨
      ∃ base, scope.fallback? = some base ∧
        s.tree.revision? (base.path kind) = some o.revision ∧ o.tier = base.tier := by
  have hread : s.run (Registry.standard.getConf kind scope name).run = _ :=
    Action.run_tryCatch (Registry.standard.readConf kind scope name) _ s
  rw [hread] at h
  split at h
  · rename_i o' s₁ hown
    cases h
    exact Or.inl (revision?_of_readConf hown)
  · rename_i e s₁ hown
    have htree : s₁.tree = s.tree :=
      Service.tree_of_reads (ConfRequest.unconditional_readConf fun _ hc => hc) hown
    split at h
    · rename_i base hbase
      rw [← htree]
      exact Or.inr ⟨base, hbase, revision?_of_readConf h⟩
    · cases h

end

/-- The revision that a reply gives of a tier is the one that the tier is at afterwards. -/
theorem ConfRequest.revision?_of_reported {q : ConfRequest} {s : Service} {kind : ConfKind}
    {scope : Scope} {r : Nat} (hq : q.Proper)
    (h : q.reported? (q.serve s).1 = some (kind, scope, r)) :
    scope.Named ∧ (q.serve s).2.tree.revision? (scope.path kind) = some r := by
  rcases hserve : q.serve s with ⟨reply, s'⟩
  rw [hserve] at h
  cases reply with
  | error e => cases q <;> cases h
  | ok a =>
    cases q with
    | list kind' scope' =>
      obtain ⟨_, s₁, hlist, hpure⟩ := Service.exists_of_run_bind_eq_ok hserve
      cases hpure
      cases h
      exact ⟨hq.1, revision?_of_listConf hlist⟩
    | get kind' scope' name =>
      obtain ⟨o, s₁, hget, hpure⟩ := Service.exists_of_run_bind_eq_ok hserve
      cases hpure
      rw [Service.tree_of_reads (unconditional_get fun _ hc => hc) hget]
      rw [reported?] at h
      rcases revision?_of_getConf hget with ⟨hrevision, htier⟩ | ⟨base, hbase, hrevision, htier⟩
      · rw [if_pos htier] at h
        cases h
        exact ⟨hq.1, hrevision⟩
      · obtain ⟨hoverride, hbasetier⟩ := Scope.tier_of_fallback hbase
        rw [htier, hbasetier, hoverride, if_neg (by decide), hbase] at h
        cases h
        exact ⟨hq.1.fallback hbase, hrevision⟩
    | new kind' scope' objects =>
      obtain ⟨_, s₁, hnew, hpure⟩ := Service.exists_of_run_bind_eq_ok hserve
      cases hpure
      cases h
      exact ⟨hq.1, revision?_of_newConf hnew⟩
    | save kind' scope' change expected =>
      obtain ⟨_, s₁, _, hpure⟩ := Service.exists_of_run_bind_eq_ok hserve
      cases hpure
      cases h
    | delete kind' scope' name expected =>
      obtain ⟨_, s₁, hdelete, hpure⟩ := Service.exists_of_run_bind_eq_ok hserve
      cases hpure
      cases h
      exact ⟨hq.1, revision?_of_deleteConf hdelete⟩

/-! ## Overwriting values -/

/-- The step changes no more than the values of objects that the tree has. -/
def ConfStep.Overwrites (t : Tree) : ConfStep → Prop
  | .request (.new ..) => False
  | .request (.save kind scope change _) =>
    (∀ name ∈ change.update.keys, t.Has (scope.objectPath kind name)) ∧
      ∀ name ∈ change.delete.keys, ¬ t.Has (scope.objectPath kind name)
  | .request (.delete ..) => False
  | _ => True

namespace Tree

/-- Both trees are sound and have nodes at the same paths. -/
def SameNodes (t t' : Tree) : Prop := t'.Sound ∧ ∀ q, t'.Has q ↔ t.Has q

/-- The call can neither create a node in the tree nor delete one. -/
def CannotGrow (t : Tree) : Call → Prop
  | .create p _ => t.Has p
  | .delete p => ¬ t.Has p
  | _ => True

theorem Change.sameNodes {t₀ t t' : Tree} {c : Call} (h : Change t c t')
    (hc : t₀.CannotGrow c) (ht : t₀.SameNodes t) : t₀.SameNodes t' := by
  refine ⟨h.sound ht.1, fun q => ?_⟩
  rw [← ht.2 q]
  cases h with
  | none c => exact Iff.rfl
  | create v hp hmissing => exact absurd ((ht.2 _).2 hc) hmissing
  | set v hcell => exact has_written hcell
  | delete hparent hp hleaf => exact absurd ((ht.2 _).1 hp) hc

end Tree

theorem ConfRequest.cannotGrow_of_mayCall {t : Tree} {q : ConfRequest}
    (h : ConfStep.Overwrites t (.request q)) {c : Call} (hc : q.MayCall c) : t.CannotGrow c := by
  cases hc with
  | read q hread =>
    cases c with
    | get p => trivial
    | visit p enter => trivial
    | set p v => trivial
    | create p v => exact hread.elim
    | delete p => exact hread.elim
  | createTier kind scope objects => exact h.elim
  | createNew kind scope hmem => exact h.elim
  | create kind scope revision hmem => exact h.1 _ (List.mem_map_of_mem hmem)
  | set kind scope revision hmem => trivial
  | deleteAny kind scope revision hname => exact h.2 _ hname
  | delete kind scope name revision => exact h.elim

/-- While values are overwritten, all trees have nodes at the same paths. -/
theorem ConfStep.sameNodes {t : Tree} {s : Service} (hs : t.SameNodes s.tree) {step : ConfStep}
    (h : step.Overwrites t) :
    t.SameNodes (step.after s).tree ∧ ∀ u ∈ step.trees s, t.SameNodes u := by
  have hidle {s' : Service} (hcells : s'.tree.cells = s.tree.cells) :
      t.SameNodes s'.tree ∧ ∀ u ∈ [s.tree, s'.tree], t.SameNodes u := by
    have hs' : t.SameNodes s'.tree := by
      refine ⟨hs.1.of_cells hcells, fun q => ?_⟩
      rw [← hs.2 q, Tree.Has, Tree.Has, hcells]
    exact ⟨hs', List.forall_mem_cons.2 ⟨hs, List.forall_mem_singleton.2 hs'⟩⟩
  cases step with
  | request q =>
    have hstep (c : Call) (s' : Service) (hc : q.MayCall c) (hs' : t.SameNodes s'.tree) :
        t.SameNodes (s'.answer c).2.tree :=
      (s'.change_answer c).sameNodes (ConfRequest.cannotGrow_of_mayCall h hc) hs'
    refine ⟨Program.Keeps.run_invariant q.keeps_action hstep hs, fun u hu => ?_⟩
    obtain ⟨s', hs', rfl⟩ := List.mem_map.1 hu
    exact Program.Keeps.forall_states (I := fun s' => t.SameNodes s'.tree) q.keeps_action hstep hs
      s' hs'
  | fault f => exact hidle rfl
  | refuseWrites start => exact hidle rfl
  | allowWrites => exact hidle rfl

theorem Service.sameNodes_treesSince {t : Tree} {s : Service} (hs : t.SameNodes s.tree)
    {steps : List ConfStep} (h : ∀ step ∈ steps, step.Overwrites t) :
    ∀ u ∈ s.treesSince steps, t.SameNodes u := by
  induction steps generalizing s with
  | nil => exact List.forall_mem_singleton.2 hs
  | cons step rest ih =>
    obtain ⟨hstep, hrest⟩ := List.forall_mem_cons.1 h
    obtain ⟨hafter, htrees⟩ := ConfStep.sameNodes hs hstep
    exact List.forall_mem_append.2 ⟨htrees, ih hafter hrest⟩

/-! ## Optimistic concurrency -/

/-- The check of a write on the condition of a tier's revision. -/
theorem ConfRequest.serve_of_condition {q : ConfRequest} {kind : ConfKind} {scope : Scope}
    {expected r : Nat} (h : q.condition? = some (kind, scope, expected)) {s : Service}
    (hs : s.tree.Sound) (hr : s.tree.revision? (scope.path kind) = some r) :
    (Refused (q.serve s).1 ↔
        (Fault.consume .get (scope.path kind) s.faults).1 = none ∧ r ≠ expected) ∧
      (Refused (q.serve s).1 → (q.serve s).2.tree = s.tree) := by
  have hp := hs.valid (Tree.has_iff_revision?.2 ⟨r, hr⟩)
  rw [← Service.accept_eq_ok_iff]
  cases q with
  | list kind' scope' => cases h
  | get kind' scope' name => cases h
  | new kind' scope' objects => cases h
  | save kind' scope' change expected' =>
    cases h
    have hrest : (Registry.confWrites kind scope change).Unconditional fun _ => True :=
      unconditional_confWrites expected fun _ _ => trivial
    exact Service.run_checked_map (Registry.saveConf_standard kind scope change expected)
      Answer.summary hrest hp hr
  | delete kind' scope' name expected' =>
    cases h
    have hrest : (Registry.confDeletion kind scope name).Unconditional fun _ => True :=
      unconditional_confDeletion expected fun _ _ => trivial
    exact Service.run_checked_map (Registry.deleteConf_standard kind scope name expected)
      Answer.number hrest hp hr

/-- A write on the condition of the revision that a reply gave is refused, and then writes
nothing, exactly if the tier was read and its objects were others at some time since. Where
values were only overwritten it is not refused. -/
theorem refused_iff_objects_changed {before between : List ConfStep}
    {read write : ConfRequest} {kind : ConfKind} {scope : Scope} {r : Nat} {s s' : Service}
    (hread : read.Proper) (hbetween : ∀ step ∈ between, step.Proper)
    (hs : s = (read.serve (Service.fresh.after before)).2) (hs' : s' = s.after between)
    (hreported : read.reported? (read.serve (Service.fresh.after before)).1 =
      some (kind, scope, r))
    (hcondition : write.condition? = some (kind, scope, r)) :
    (Refused (write.serve s').1 ↔
        (Fault.consume .get (scope.path kind) s'.faults).1 = none ∧
          ∃ t ∈ s.treesSince between,
            t.objectPaths kind scope ≠ s.tree.objectPaths kind scope) ∧
      (Refused (write.serve s').1 → (write.serve s').2.tree = s'.tree) ∧
      ((∀ step ∈ between, step.Overwrites s.tree) → ¬ Refused (write.serve s').1) := by
  have hsound : s.tree.Sound := by
    have hbefore := Service.sound_after (s := Service.fresh) Tree.sound_empty before
    rw [hs]
    exact Service.sound_run read.action.run hbefore
  obtain ⟨hnamed, hrevision⟩ := ConfRequest.revision?_of_reported hread hreported
  rw [← hs] at hrevision
  have htier := Tree.has_iff_revision?.2 ⟨r, hrevision⟩
  have hpassage := Service.passage_after hbetween hnamed hsound htier
  rw [← hs'] at hpassage
  obtain ⟨r', hr', hmoved⟩ := hpassage.exists_revision hrevision
  obtain ⟨hrefused, hunchanged⟩ :=
    ConfRequest.serve_of_condition hcondition hpassage.sound hr'
  have hchanged : r' ≠ r ↔ ∃ t ∈ s.treesSince between,
      t.objectPaths kind scope ≠ s.tree.objectPaths kind scope := hmoved
  rw [hchanged] at hrefused
  refine ⟨hrefused, hunchanged, fun hoverwrites hrefuses => ?_⟩
  obtain ⟨_, t, ht, hne⟩ := hrefused.1 hrefuses
  obtain ⟨htsound, hnodes⟩ := Service.sameNodes_treesSince
    ⟨hsound, fun q => Iff.rfl⟩ hoverwrites t ht
  refine hne ((Tree.childPaths_eq_iff hsound htsound (hsound.valid htier)).2 ?_)
  exact fun c _ => hnodes c

namespace RoundTrip

/-- A base tier. -/
def scope : Scope := .base "eu" "web"

/-- The tier is created with one object. -/
def before : List ConfStep := [.request (.new .config scope (OrderedMap.empty.insert "a" [1]))]

/-- A save fails after it has added an object, and the object is deleted again. -/
def between : List ConfStep :=
  [.fault ⟨.create, "/conf/base/eu/web/c", .disconnected, 0⟩,
    .request (.save .config scope
      ⟨(OrderedMap.empty.insert "b" [2]).insert "c" [3], .empty⟩ 1),
    .request (.delete .config scope "b" 2)]

/-- The service after the read. -/
def read : Service := ((ConfRequest.list .config scope).serve (Service.fresh.after before)).2

/-- The tier has the objects that it had, and still a write on the old condition is refused. -/
theorem refused_round_trip :
    (read.after between).tree.objectPaths .config scope = read.tree.objectPaths .config scope ∧
      Refused ((ConfRequest.save .config scope ⟨.empty, .empty⟩ 1).serve
        (read.after between)).1 := by
  refine ⟨by decide +kernel, ?_⟩
  have hreported : (ConfRequest.list .config scope).reported?
      ((ConfRequest.list .config scope).serve (Service.fresh.after before)).1 =
        some (.config, scope, 1) := by decide +kernel
  exact (refused_iff_objects_changed (by decide +kernel) (by decide +kernel) rfl rfl
    hreported rfl).1.2 ⟨by decide +kernel, by decide +kernel⟩

end RoundTrip

end Coordination
