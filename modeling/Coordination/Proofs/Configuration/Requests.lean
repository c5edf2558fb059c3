import Coordination.Proofs.Registry.Checks
import Coordination.Proofs.Registry.Standard
import Coordination.Session.Step

/-!
# Requests for configuration

The requests that clients make of the configuration tiers, as operations of the registry with
the standard templates, and the calls that each can make. Whatever fails on the way, a
request writes nothing but the root of a tier that it creates and the objects that it names,
and only objects are deleted.
-/

namespace Coordination

/-- A request for configuration objects. -/
inductive ConfRequest where
  | list (kind : ConfKind) (scope : Scope)
  | get (kind : ConfKind) (scope : Scope) (name : String)
  | new (kind : ConfKind) (scope : Scope) (objects : OrderedMap Bytes)
  | save (kind : ConfKind) (scope : Scope) (change : ConfChange) (revision : Nat)
  | delete (kind : ConfKind) (scope : Scope) (name : String) (revision : Nat)
  deriving DecidableEq

namespace ConfRequest

/-- The operation of the registry that a request stands for. -/
def step : ConfRequest → RegistryStep
  | .list kind scope => .listConf kind scope
  | .get kind scope name => .getConf kind scope name
  | .new kind scope objects => .newConf kind scope objects
  | .save kind scope change revision => .saveConf kind scope change revision
  | .delete kind scope name revision => .deleteConf kind scope name revision

/-- The program of a request, with the standard templates. -/
def action (q : ConfRequest) : Action Answer := q.step.action .standard

/-- What a service answers to a request, and the service afterwards. -/
def serve (q : ConfRequest) (s : Service) : Except RegistryError Answer × Service :=
  s.run q.action.run

/-- The scope of the request. -/
def scope : ConfRequest → Scope
  | .list _ scope => scope
  | .get _ scope _ => scope
  | .new _ scope _ => scope
  | .save _ scope _ _ => scope
  | .delete _ scope _ _ => scope

/-- The names of objects in the request. -/
def names : ConfRequest → List String
  | .list .. => []
  | .get _ _ name => [name]
  | .new _ _ objects => objects.keys
  | .save _ _ change _ => change.update.keys ++ change.delete.keys
  | .delete _ _ name _ => [name]

/-- All fields of the scope and all names of objects are names. -/
def Proper (q : ConfRequest) : Prop := q.scope.Named ∧ ∀ name ∈ q.names, Path.IsName name

instance (q : ConfRequest) : Decidable q.Proper := inferInstanceAs (Decidable (_ ∧ _))

end ConfRequest

/-- What may happen to a service: a request for configuration, a planned fault, and writes
that are refused and allowed again. -/
inductive ConfStep where
  | request (q : ConfRequest)
  | fault (f : Fault)
  | refuseWrites (start : String)
  | allowWrites
  deriving DecidableEq

namespace ConfStep

/-- The scopes and the objects of a request have names. -/
def Proper : ConfStep → Prop
  | .request q => q.Proper
  | _ => True

instance (step : ConfStep) : Decidable step.Proper := by
  cases step <;> unfold Proper <;> infer_instance

/-- The service after a step. -/
def after (s : Service) : ConfStep → Service
  | .request q => (q.serve s).2
  | .fault f => s.plan f
  | .refuseWrites start => s.modifyTree (·.lock start)
  | .allowWrites => s.modifyTree Tree.unlock

end ConfStep

namespace Service

/-- The service after steps. -/
def after (s : Service) : List ConfStep → Service
  | [] => s
  | step :: rest => (step.after s).after rest

end Service

namespace ConfRequest

/-! ## The calls of a request -/

/-- The calls that a request can make. -/
inductive MayCall : ConfRequest → Call → Prop where
  | read (q : ConfRequest) {c : Call} (h : c.IsRead) : MayCall q c
  | createTier (kind : ConfKind) (scope : Scope) (objects : OrderedMap Bytes) :
    MayCall (.new kind scope objects) (.create (scope.path kind) [])
  | createNew (kind : ConfKind) (scope : Scope) {objects : OrderedMap Bytes} {name : String}
    {data : Bytes} (h : (name, data) ∈ objects.toList) :
    MayCall (.new kind scope objects) (.create (scope.objectPath kind name) data)
  | create (kind : ConfKind) (scope : Scope) {change : ConfChange} (revision : Nat)
    {name : String} {data : Bytes} (h : (name, data) ∈ change.update.toList) :
    MayCall (.save kind scope change revision) (.create (scope.objectPath kind name) data)
  | set (kind : ConfKind) (scope : Scope) {change : ConfChange} (revision : Nat)
    {name : String} {data : Bytes} (h : (name, data) ∈ change.update.toList) :
    MayCall (.save kind scope change revision) (.set (scope.objectPath kind name) data)
  | deleteAny (kind : ConfKind) (scope : Scope) {change : ConfChange} (revision : Nat)
    {name : String} (h : name ∈ change.delete.keys) :
    MayCall (.save kind scope change revision) (.delete (scope.objectPath kind name))
  | delete (kind : ConfKind) (scope : Scope) (name : String) (revision : Nat) :
    MayCall (.delete kind scope name revision) (.delete (scope.objectPath kind name))

section

variable {allowed : Call → Prop} {kind : ConfKind} {scope : Scope} (revision : Nat)

theorem unconditional_list (hread : ∀ c : Call, c.IsRead → allowed c) :
    (Registry.standard.listConf kind scope).Unconditional allowed := by
  rw [Registry.listConf_standard]
  refine (Action.unconditional_node (hread _ trivial)).bind fun root => ?_
  refine (Action.unconditional_children (hread _ trivial)).bind fun nodes => ?_
  exact Action.unconditional_pure _

theorem unconditional_readConf {name : String} (hread : ∀ c : Call, c.IsRead → allowed c) :
    (Registry.standard.readConf kind scope name).Unconditional allowed := by
  rw [Registry.readConf_standard]
  refine (Action.unconditional_node (hread _ trivial)).bind fun root => ?_
  refine (Action.unconditional_node (hread _ trivial)).bind fun object => ?_
  exact Action.unconditional_pure _

theorem unconditional_get {name : String} (hread : ∀ c : Call, c.IsRead → allowed c) :
    (Registry.standard.getConf kind scope name).Unconditional allowed := by
  rw [Registry.getConf]
  refine (unconditional_readConf hread).tryCatch fun e he => ?_
  split
  · exact unconditional_readConf hread
  · exact Action.unconditional_throw he

theorem unconditional_new {objects : OrderedMap Bytes}
    (h : ∀ c, MayCall (.new kind scope objects) c → allowed c) :
    (Registry.standard.newConf kind scope objects).Unconditional allowed := by
  rw [Registry.newConf_standard]
  refine (Action.unconditional_createNew (h _ (.createTier kind scope objects))).bind fun _ => ?_
  refine (Batch.unconditional_apply (fun c hc => ?_) _).bind fun _ => ?_
  · rw [Batch.calls, List.map_nil, List.map_nil, List.append_nil, List.append_nil] at hc
    obtain ⟨w, hw, rfl⟩ := List.mem_map.1 hc
    obtain ⟨o, ho, rfl⟩ := List.mem_map.1 hw
    exact h _ (.createNew kind scope ho)
  · refine (Action.unconditional_node (h _ (.read _ trivial))).bind fun root => ?_
    exact Action.unconditional_pure _

/-- What a save does once the revision was checked. -/
theorem unconditional_confWrites {change : ConfChange}
    (h : ∀ c, MayCall (.save kind scope change revision) c → allowed c) :
    (Registry.confWrites kind scope change).Unconditional allowed := by
  refine Action.Keeps.bind (Batch.keeps_plan ?_ ?_) fun batch hbatch =>
    Batch.unconditional_apply hbatch []
  · intro w hw
    obtain ⟨o, ho, rfl⟩ := List.mem_map.1 hw
    exact ⟨h _ (.read _ trivial), h _ (.create kind scope revision ho),
      h _ (.set kind scope revision ho)⟩
  · intro p hp
    obtain ⟨name, hname, rfl⟩ := List.mem_map.1 hp
    exact ⟨h _ (.read _ trivial), h _ (.deleteAny kind scope revision hname)⟩

/-- What a deletion does once the revision was checked. -/
theorem unconditional_confDeletion {name : String}
    (h : ∀ c, MayCall (.delete kind scope name revision) c → allowed c) :
    (Registry.confDeletion kind scope name).Unconditional allowed := by
  refine (Action.unconditional_node (h _ (.read _ trivial))).bind fun _ => ?_
  refine (Action.unconditional_call (h _ (.delete kind scope name revision))).bind fun _ => ?_
  refine (Action.unconditional_node (h _ (.read _ trivial))).bind fun root => ?_
  exact Action.unconditional_pure _

end

/-- A request makes no calls but its own. -/
theorem keeps_action (q : ConfRequest) :
    q.action.Keeps q.MayCall (fun _ => True) (fun _ => True) := by
  have hread (c : Call) (hc : c.IsRead) : q.MayCall c := .read q hc
  have hweaken {α : Type} {x : Action α} (hx : x.Unconditional q.MayCall) :
      x.Keeps q.MayCall (fun _ => True) fun _ => True :=
    hx.mono (fun _ hc => hc) (fun _ _ => trivial) fun _ _ => trivial
  cases q with
  | list kind scope =>
    exact (hweaken (unconditional_list hread)).bind fun _ _ => Action.keeps_pure trivial
  | get kind scope name =>
    exact (hweaken (unconditional_get hread)).bind fun _ _ => Action.keeps_pure trivial
  | new kind scope objects =>
    exact (hweaken (unconditional_new fun _ h => h)).bind fun _ _ => Action.keeps_pure trivial
  | save kind scope change revision =>
    have hsave := Action.keeps_checked revision (hread (.get (scope.path kind)) trivial)
      (unconditional_confWrites revision fun _ h => h)
    rw [← Registry.saveConf_standard] at hsave
    exact hsave.bind fun _ _ => Action.keeps_pure trivial
  | delete kind scope name revision =>
    have hdelete := Action.keeps_checked revision (hread (.get (scope.path kind)) trivial)
      (unconditional_confDeletion revision fun _ h => h)
    rw [← Registry.deleteConf_standard] at hdelete
    exact hdelete.bind fun _ _ => Action.keeps_pure trivial

/-- Only objects that the request names are deleted. -/
theorem exists_of_mayCall_delete {q : ConfRequest} {p : String} (h : q.MayCall (.delete p)) :
    ∃ kind, ∃ name ∈ q.names, p = q.scope.objectPath kind name := by
  cases h with
  | read _ hread => exact hread.elim
  | deleteAny kind scope revision hname =>
    exact ⟨kind, _, List.mem_append_right _ hname, rfl⟩
  | delete kind scope name revision => exact ⟨kind, name, List.mem_singleton_self name, rfl⟩

/-- No request deletes the root of a tier. -/
theorem ne_delete_of_mayCall {q : ConfRequest} (hq : q.Proper) (kind : ConfKind) {scope : Scope}
    (hscope : scope.Named) {c : Call} (h : q.MayCall c) : c ≠ .delete (scope.path kind) := by
  rintro rfl
  obtain ⟨kind', name, hname, heq⟩ := exists_of_mayCall_delete h
  exact Scope.objectPath_ne_path hq.1 hscope (hq.2 name hname) heq.symm

end ConfRequest

end Coordination
