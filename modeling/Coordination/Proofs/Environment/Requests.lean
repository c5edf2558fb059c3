import Coordination.Proofs.Registry.Checks
import Coordination.Proofs.Registry.Standard
import Coordination.Session.Step

/-!
# Requests for an environment

The requests that clients make of one environment, as operations of the registry with the
standard templates. Whatever they answer, they write nothing but the root of the environment,
which they only create, and nodes behind it.
-/

namespace Coordination

/-- A request for the variables of a release. -/
inductive EnvRequest where
  | read
  | new (vars : Env)
  | save (change : EnvChange) (revision : Nat)
  deriving DecidableEq

namespace EnvRequest

/-- The operation of the registry that a request stands for. -/
def step (id : ReleaseId) : EnvRequest → RegistryStep
  | .read => .readEnv id
  | .new vars => .newEnv id vars
  | .save change revision => .saveEnv id change revision

/-- The program of a request, with the standard templates. -/
def action (id : ReleaseId) (q : EnvRequest) : Action Answer := (q.step id).action .standard

/-- What a service answers to a request, and the service afterwards. -/
def serve (id : ReleaseId) (q : EnvRequest) (s : Service) :
    Except RegistryError Answer × Service := s.run (q.action id).run

/-- The service after requests. -/
def serveAll (id : ReleaseId) (s : Service) : List EnvRequest → Service
  | [] => s
  | q :: rest => serveAll id (q.serve id s).2 rest

/-- The variables and the revision that a reply gives. -/
def listed? : Except RegistryError Answer → Option (Env × Nat)
  | .ok (.env env r) => some (env, r)
  | _ => none

/-- The writes that a reply counts. -/
def saved? : Except RegistryError Answer → Option ChangeSummary
  | .ok (.summary summary) => some summary
  | _ => none

end EnvRequest

/-- The call reads, creates the node at `d`, or is made behind `d`. -/
def Call.Behind (d : String) (c : Call) : Prop :=
  c.IsRead ∨ c = .create d [] ∨ Path.startsWith (d ++ "/") c.path = true

theorem Call.Behind.ne_delete {d : String} {c : Call} (hd : d ≠ Path.root) (h : c.Behind d) :
    c ≠ .delete d := by
  rintro rfl
  rcases h with hread | hcreate | hstart
  · exact hread
  · cases hcreate
  · refine Path.not_below_self d ⟨hd, ?_⟩
    rw [Path.childStart_of_ne hd]
    exact hstart

/-- The call reads, or is made behind `d`. -/
def Call.Inside (d : String) (c : Call) : Prop :=
  c.IsRead ∨ Path.startsWith (d ++ "/") c.path = true

theorem Call.Inside.behind {d : String} {c : Call} (h : c.Inside d) : c.Behind d := by
  rcases h with hread | hstart
  · exact Or.inl hread
  · exact Or.inr (Or.inr hstart)

/-- The call reads, or deletes a node behind `d`. -/
def Call.Prunes (d : String) (c : Call) : Prop :=
  c.IsRead ∨ ∃ g, c = .delete g ∧ Path.startsWith (d ++ "/") g = true

theorem Call.Prunes.inside {d : String} {c : Call} (h : c.Prunes d) : c.Inside d := by
  rcases h with hread | ⟨g, rfl, hstart⟩
  · exact Or.inl hread
  · exact Or.inr hstart

/-! ## The calls of a request -/

namespace Registry

variable {id : ReleaseId}

theorem behind_read {d : String} {c : Call} (h : c.IsRead) : c.Behind d := Or.inl h

theorem inside_variable {d x : String} {c : Call} (h : c.path = d ++ "/" ++ x) : c.Inside d :=
  Or.inr (h ▸ Path.startsWith_append _ _)

theorem behind_variable {d x : String} {c : Call} (h : c.path = d ++ "/" ++ x) : c.Behind d :=
  (inside_variable h).behind

theorem unconditional_readLeaves {allowed : Call → Prop} (root : String) (nodes : List Node)
    (found : Env) : (readLeaves root nodes found).Unconditional allowed := by
  induction nodes generalizing found with
  | nil => exact Action.unconditional_pure _
  | cons n rest ih => exact (Action.unconditional_decode n).bind fun _ => ih _

theorem unconditional_getEnv : (standard.getEnv id).Unconditional Call.IsRead := by
  rw [getEnv_standard]
  refine (Action.unconditional_node trivial).bind fun root => ?_
  refine (Action.unconditional_call trivial).bind fun nodes => ?_
  refine (unconditional_readLeaves _ _ _).bind fun env => ?_
  exact Action.unconditional_pure _

theorem unconditional_newEnv {vars : Env} :
    (standard.newEnv id vars).Unconditional (Call.Behind id.envPath) := by
  rw [newEnv_standard]
  refine (Action.unconditional_createNew (Or.inr (Or.inl rfl))).bind fun _ => ?_
  refine (Batch.unconditional_apply (fun c hc => ?_) _).bind fun _ => ?_
  · rw [Batch.calls, List.map_nil, List.map_nil, List.append_nil, List.append_nil] at hc
    obtain ⟨w, hw, rfl⟩ := List.mem_map.1 hc
    obtain ⟨o, _, rfl⟩ := List.mem_map.1 hw
    exact behind_variable rfl
  · refine (Action.unconditional_node (behind_read trivial)).bind fun root => ?_
    exact Action.unconditional_pure _

/-- Pruning deletes nothing but what starts with the root and a slash. -/
theorem unconditional_pruneUp (root : String) (groups : List String) :
    (pruneUp root groups).Unconditional (Call.Prunes root) := by
  induction groups with
  | nil => exact Action.unconditional_pure _
  | cons g rest ih =>
    rw [pruneUp]
    split
    · rename_i hstart
      refine (Action.unconditional_attempt (c := .get g) (Or.inl trivial)).bind fun _ => ?_
      split
      · exact Action.unconditional_pure _
      · exact Action.unconditional_throw (Action.not_isRevisionConflict_tree _)
      · split
        · exact Action.unconditional_pure _
        · refine (Action.unconditional_attempt (c := .delete g)
            (Or.inr ⟨g, rfl, hstart⟩)).bind fun _ => ?_
          split
          · exact Action.unconditional_pure _
          · exact Action.unconditional_pure _
          · exact Action.unconditional_throw (Action.not_isRevisionConflict_tree _)
          · exact ih.bind fun _ => Action.unconditional_pure _
    · exact Action.unconditional_pure _

theorem unconditional_pruneGroups (root : String) (paths : List String) :
    (pruneGroups root paths).Unconditional (Call.Prunes root) := by
  induction paths with
  | nil => exact Action.unconditional_pure _
  | cons p rest ih =>
    refine (unconditional_pruneUp root _).bind fun _ => ?_
    exact ih.bind fun _ => Action.unconditional_pure _

/-- What a save does once the revision was checked. -/
theorem inside_envWrites (id : ReleaseId) (c : EnvChange) :
    (envWrites id c).Unconditional (Call.Inside id.envPath) := by
  rw [envWrites]
  split
  · exact Action.unconditional_pure _
  · refine Action.Keeps.bind (Batch.keeps_plan ?_ ?_) fun batch hbatch => ?_
    · intro w hw
      obtain ⟨o, _, rfl⟩ := List.mem_map.1 hw
      exact ⟨Or.inl trivial, inside_variable rfl, inside_variable rfl⟩
    · intro p hp
      obtain ⟨x, _, rfl⟩ := List.mem_map.1 hp
      exact ⟨Or.inl trivial, inside_variable rfl⟩
    · refine (Batch.unconditional_apply hbatch []).bind fun _ => ?_
      have hprune : (pruneGroups id.envPath batch.deletes).Unconditional
          (Call.Inside id.envPath) :=
        (unconditional_pruneGroups _ _).mono (fun _ hc => hc.inside) (fun _ h => h) fun _ h => h
      exact hprune.bind fun _ => Action.unconditional_pure _

theorem unconditional_envWrites (id : ReleaseId) (c : EnvChange) :
    (envWrites id c).Unconditional (Call.Behind id.envPath) :=
  (inside_envWrites id c).mono (fun _ hc => hc.behind) (fun _ h => h) fun _ h => h

end Registry

namespace EnvRequest

/-- Requests read, create the root, or write behind it. -/
theorem keeps_action (id : ReleaseId) (q : EnvRequest) :
    (q.action id).Keeps (Call.Behind id.envPath) (fun _ => True) (fun _ => True) := by
  have hread : Call.Behind id.envPath (.get id.envPath) := Registry.behind_read trivial
  cases q with
  | read =>
    refine Action.Keeps.bind (Registry.unconditional_getEnv.mono (fun _ hc => Or.inl hc)
      (fun _ h => h) fun _ _ => trivial) fun _ _ => ?_
    exact Action.keeps_pure trivial
  | new vars =>
    refine Action.Keeps.bind (Registry.unconditional_newEnv.mono (fun _ hc => hc)
      (fun _ h => h) fun _ _ => trivial) fun _ _ => ?_
    exact Action.keeps_pure trivial
  | save change revision =>
    have hsave := Action.keeps_checked revision hread
      (Registry.unconditional_envWrites id change)
    rw [← Registry.saveEnv_standard] at hsave
    exact hsave.bind fun _ _ => Action.keeps_pure trivial

end EnvRequest

end Coordination
