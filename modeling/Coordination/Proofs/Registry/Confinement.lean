import Coordination.Proofs.Configuration.Requests
import Coordination.Proofs.Environment.Requests
import Coordination.Proofs.Registry.Errors
import Coordination.Proofs.Tree.Confinement

/-!
# Changes of an environment or a tier stay inside it

With the standard templates, saving an environment, saving a tier and deleting an object of a
tier first read the directory that they are about, and all that they write is named by the
path of the directory, a slash and more; that goes for any texts as the fields of a scope or
as names, and for the groups that are deleted when they are empty. So whatever fails on the
way, nothing changes but below the directory and in its count of changes of the children.
Nothing is said of the order in which the nodes below it change.
-/

namespace Coordination

/-! ## Paths of kinds and tiers -/

theorem Path.ne_of_length {d : String} (h : 1 < d.toList.length) : d ≠ root ∧ d ≠ "" := by
  constructor
  · rintro rfl
    exact absurd h (by decide)
  · rintro rfl
    exact absurd h (by decide)

theorem ReleaseId.length_envPath (id : ReleaseId) : 1 < id.envPath.toList.length := by
  have hslash : "/".toList.length = 1 := rfl
  simp only [envPath, String.toList_append, List.length_append]
  omega

namespace Scope

/-- What the paths of all scopes of a kind and a tier start with. -/
def start (kind : ConfKind) (tier : Tier) : String :=
  "/" ++ kind.name ++ "/" ++ tier.name ++ "/"

theorem startsWith_path (kind : ConfKind) (scope : Scope) :
    Path.startsWith (start kind scope.tier) (scope.path kind) = true := by
  cases scope with
  | base domainClass service =>
    have hpath : path kind (.base domainClass service) =
        start kind .base ++ (domainClass ++ "/" ++ service) := by
      have hslash : "/base/" = "/" ++ ("base" ++ "/") := rfl
      have hname : Tier.base.name = "base" := rfl
      simp only [path, start, hslash, hname, String.append_assoc]
    rw [hpath]
    exact Path.startsWith_append _ _
  | override domainClass domainInstance service version =>
    have hpath : path kind (.override domainClass domainInstance service version) =
        start kind .override ++
          (domainClass ++ "/" ++ domainInstance ++ "/" ++ service ++ "/" ++ version) := by
      have hslash : "/override/" = "/" ++ ("override" ++ "/") := rfl
      have hname : Tier.override.name = "override" := rfl
      simp only [path, start, hslash, hname, String.append_assoc]
    rw [hpath]
    exact Path.startsWith_append _ _

theorem length_path (kind : ConfKind) (scope : Scope) :
    1 < (scope.path kind).toList.length := by
  have hstart := (Path.startsWith_iff.1 (startsWith_path kind scope)).length_le
  have hslash : "/".toList.length = 1 := rfl
  simp only [start, String.toList_append, List.length_append] at hstart
  omega

theorem eq_of_start_prefix {kind kind' : ConfKind} {tier tier' : Tier}
    (h : (start kind tier).toList <+: (start kind' tier').toList) :
    kind = kind' ∧ tier = tier' := by
  revert h
  cases kind <;> cases kind' <;> cases tier <;> cases tier' <;> decide

/-- The paths of different kinds, and those of different tiers, do not meet. -/
theorem eq_of_startsWith {kind kind' : ConfKind} {tier tier' : Tier} {q : String}
    (h : Path.startsWith (start kind tier) q = true)
    (h' : Path.startsWith (start kind' tier') q = true) : kind = kind' ∧ tier = tier' := by
  rcases List.prefix_or_prefix_of_prefix (Path.startsWith_iff.1 h) (Path.startsWith_iff.1 h')
    with hpre | hpre
  · exact eq_of_start_prefix hpre
  · obtain ⟨hkind, htier⟩ := eq_of_start_prefix hpre
    exact ⟨hkind.symm, htier.symm⟩

theorem startsWith_of_within {kind : ConfKind} {scope : Scope} {q : String}
    (h : Tree.Within (scope.path kind) q) : Path.startsWith (start kind scope.tier) q = true := by
  have hpath := startsWith_path kind scope
  rcases h with rfl | hbelow
  · exact hpath
  · exact Path.startsWith_trans hpath
      (Path.startsWith_trans (Path.startsWith_childStart _) hbelow.2)

end Scope

/-! ## Calls inside a directory -/

theorem Call.Inside.below {d : String} (hd : d ≠ Path.root ∧ d ≠ "") {c : Call}
    (h : c.Inside d) : c.IsRead ∨ Path.Below d c.path := by
  rcases h with hread | hstart
  · exact Or.inl hread
  · exact Or.inr (Path.below_of_startsWith hd.1 hd.2 hstart)

namespace ConfRequest

variable {kind : ConfKind} {scope : Scope} {revision : Nat} {c : Call}

theorem MayCall.inside_of_save {change : ConfChange}
    (h : MayCall (.save kind scope change revision) c) : c.Inside (scope.path kind) := by
  cases h with
  | read _ hread => exact Or.inl hread
  | create _ _ _ hname => exact Or.inr (Path.startsWith_append _ _)
  | set _ _ _ hname => exact Or.inr (Path.startsWith_append _ _)
  | deleteAny _ _ _ hname => exact Or.inr (Path.startsWith_append _ _)

theorem MayCall.inside_of_delete {name : String}
    (h : MayCall (.delete kind scope name revision) c) : c.Inside (scope.path kind) := by
  cases h with
  | read _ hread => exact Or.inl hread
  | delete _ _ _ _ => exact Or.inr (Path.startsWith_append _ _)

end ConfRequest

theorem Action.opens_checked {α : Type} (d : String) (expected : Nat) (rest : Action α) :
    (Action.checked d expected rest).Opens d := (Action.opens_node d).bind _

namespace RegistryStep

/-- The directory that a change of an environment or a tier is about. -/
def directory? : RegistryStep → Option String
  | .saveEnv id _ _ => some id.envPath
  | .saveConf kind scope _ _ => some (scope.path kind)
  | .deleteConf kind scope _ _ => some (scope.path kind)
  | _ => none

variable {d : String}

/-- A change is checked against the revision of its directory, and made of calls inside. -/
theorem opens_and_keeps {op : RegistryStep} (h : op.directory? = some d) :
    (op.action .standard).Opens d ∧
      (op.action .standard).Keeps (fun c => c.IsRead ∨ Path.Below d c.path)
        (fun _ => True) fun _ => True := by
  have hchecked {α : Type} {x rest : Action α} {expected : Nat} (f : α → Answer)
      (hlength : 1 < d.toList.length) (hx : x = Action.checked d expected rest)
      (hrest : rest.Unconditional (Call.Inside d)) :
      (x >>= fun a => pure (f a)).Opens d ∧
        (x >>= fun a => pure (f a)).Keeps (fun c => c.IsRead ∨ Path.Below d c.path)
          (fun _ => True) fun _ => True := by
    subst hx
    have hbelow : rest.Unconditional fun c => c.IsRead ∨ Path.Below d c.path :=
      hrest.mono (fun _ hc => hc.below (Path.ne_of_length hlength)) (fun _ h => h) fun _ h => h
    have hread : (Call.get d).IsRead ∨ Path.Below d (Call.get d).path := Or.inl trivial
    have hkeeps := Action.keeps_checked expected hread hbelow
    exact ⟨(Action.opens_checked d expected rest).bind _,
      hkeeps.bind fun _ _ => Action.keeps_pure trivial⟩
  cases op with
  | saveEnv id change expected =>
    cases h
    exact hchecked Answer.summary id.length_envPath
      (Registry.saveEnv_standard id change expected) (Registry.inside_envWrites id change)
  | saveConf kind scope change expected =>
    cases h
    exact hchecked Answer.summary (scope.length_path kind)
      (Registry.saveConf_standard kind scope change expected)
      (ConfRequest.unconditional_confWrites expected fun _ hc => hc.inside_of_save)
  | deleteConf kind scope name expected =>
    cases h
    exact hchecked Answer.number (scope.length_path kind)
      (Registry.deleteConf_standard kind scope name expected)
      (ConfRequest.unconditional_confDeletion expected fun _ hc => hc.inside_of_delete)
  | _ => cases h

/-- Saving an environment, saving a tier and deleting an object of a tier are confined to the
directory in every tree on the way and in the last one, whichever calls fail; they try no write
but strictly below the directory; and no node of another kind or of the other tier changes. -/
theorem confined_to_directory {op : RegistryStep} (hop : op.directory? = some d) {s : Service}
    (hs : s.tree.Reachable) :
    (∀ t ∈ s.trees (op.action .standard).run, Tree.ConfinedTo d s.tree t) ∧
      Tree.ConfinedTo d s.tree (s.run (op.action .standard).run).2.tree ∧
      (∀ e ∈ s.trace (op.action .standard).run, e.1.isWrite = true → Path.Below d e.1.path) ∧
      ∀ (kind kind' : ConfKind) (scope scope' : Scope), d = scope.path kind →
        kind' ≠ kind ∨ scope'.tier ≠ scope.tier → ∀ q, Tree.Within (scope'.path kind') q →
          (s.run (op.action .standard).run).2.tree.node? q = s.tree.node? q := by
  obtain ⟨hopens, hkeeps⟩ := opens_and_keeps hop
  have hruns : (∀ t ∈ s.trees (op.action .standard).run, Tree.ConfinedTo d s.tree t) ∧
      ∀ e ∈ s.trace (op.action .standard).run, e.1.isWrite = true →
        Path.Below d e.1.path := by
    by_cases hd : s.tree.Has d
    · refine ⟨Service.confined_run hkeeps hs.sound hd, ?_⟩
      intro e he hwrite
      rcases Program.Keeps.forall_trace hkeeps s e he with hread | hbelow
      · rw [Call.IsRead.not_isWrite hread] at hwrite
        cases hwrite
      · exact hbelow
    · obtain ⟨htrees, htrace⟩ := Service.run_of_opens hopens hd
      constructor
      · intro t ht
        rw [htrees t ht]
        exact .refl d s.tree
      · intro e he hwrite
        rw [htrace e he] at hwrite
        cases hwrite
  obtain ⟨htrees, hwrites⟩ := hruns
  have hlast : Tree.ConfinedTo d s.tree (s.run (op.action .standard).run).2.tree :=
    htrees _ (List.mem_map.2 ⟨_, Program.last_mem_states _ _, rfl⟩)
  refine ⟨htrees, hlast, hwrites, ?_⟩
  rintro kind kind' scope scope' rfl hother q hq
  refine hlast.elsewhere q fun hwithin => ?_
  obtain ⟨hkind, htier⟩ :=
    Scope.eq_of_startsWith (Scope.startsWith_of_within hwithin) (Scope.startsWith_of_within hq)
  rcases hother with hne | hne
  · exact hne hkind.symm
  · exact hne htier.symm

end RegistryStep

/-! ## A save that fails while it deletes groups -/

namespace HalfPruned

/-- The release whose environment is changed. -/
def release : ReleaseId := ⟨"d", "s", "v"⟩

/-- An environment with two groups, beside a node whose path starts like that of the
environment; the second group cannot be read. -/
def service : Service :=
  ((Service.fresh.run (Registry.standard.newEnv release
      ((OrderedMap.empty.insert "g/x" "1").insert "h/y" "2"))).2.run
    (Program.perform (.create "/d/s/v/env-old/h" []))).2.plan
      ⟨.get, "/d/s/v/env/h", .backend "down", 0⟩

/-- Both variables are deleted, which leaves the groups empty. -/
def deletion : RegistryStep :=
  .saveEnv release ⟨.empty, (OrderedMap.empty.insert "g/x" ()).insert "h/y" ()⟩ 2

/-- What becomes of the deletion. -/
def saved : Except RegistryError Answer × Service :=
  service.run (deletion.action .standard).run

/-- The save fails when the first group is gone and the second is not; beside the nodes below
the environment only the count at its root is another. -/
theorem half_pruned_confined :
    treeError? saved.1 = some (.backend "down") ∧ ¬ saved.2.tree.Has "/d/s/v/env/g" ∧
      saved.2.tree.Has "/d/s/v/env/h" ∧
      Tree.ConfinedTo release.envPath service.tree saved.2.tree ∧
      service.tree.revision? release.envPath = some 2 ∧
      saved.2.tree.revision? release.envPath = some 3 := by
  have hreachable : service.tree.Reachable :=
    Service.reachable_run _ (Service.reachable_run _ .empty)
  have hdirectory : deletion.directory? = some release.envPath := rfl
  obtain ⟨_, hconfined, _, _⟩ := RegistryStep.confined_to_directory hdirectory hreachable
  -- one evaluation of the deletion shows all that can be read off it
  have hread : (treeError? saved.1 = some (.backend "down") ∧
      ¬ saved.2.tree.Has "/d/s/v/env/g" ∧ saved.2.tree.Has "/d/s/v/env/h") ∧
      service.tree.revision? release.envPath = some 2 ∧
      saved.2.tree.revision? release.envPath = some 3 := by decide +kernel
  obtain ⟨⟨hfails, hgone, hleft⟩, hcounts⟩ := hread
  exact ⟨hfails, hgone, hleft, hconfined, hcounts⟩

end HalfPruned

end Coordination
