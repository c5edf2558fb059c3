import Coordination.Proofs.Configuration.Refinement
import Coordination.Proofs.Environment.Refinement
import Coordination.Proofs.Environment.Requests
import Coordination.Proofs.Tree.Exclusive

/-!
# Racing to create a directory

Environments and tiers are created by calls that first create the root of a directory and then
fill it. Where several such calls race for one root, the creation of the root decides, so the
directory holds what a single request asked for and nothing of the others. Only calls that
create take part: what a change of the directory does in between is not considered.
-/

namespace Coordination

namespace Race

/-- Client `w` created what was to be at `d`, at the revision. Every other client was told that
it is there already, and no turn of theirs changed anything. -/
structure WonBy (race : Race (Except RegistryError Nat)) (turns : List Nat) (d : String)
    (w revision : Nat) : Prop where
  winner : (race.after turns).result? w = some (.ok revision)
  others : ∀ i < race.clients.length, i ≠ w →
    (race.after turns).result? i = some (.error (.conflict d .exists))
  traceless : ∀ x ∈ race.log turns, x.client ≠ w → x.after = x.before

end Race

namespace Service

variable {ρ : Type} {s : Service} {d : String} {create : ρ → Action Nat} {requests : List ρ}
variable {Holds : ρ → Nat → Service → Prop}

/-- Calls race to create what is at `d`, each with a request of its own. Whatever turns there
were, all calls can come to their ends; and when they have, one of them has won and the service
holds its request, at the revision that it answered. -/
def Decides (s : Service) (d : String) (create : ρ → Action Nat) (requests : List ρ)
    (Holds : ρ → Nat → Service → Prop) : Prop :=
  ∀ turns, let race : Race (Except RegistryError Nat) :=
      ⟨requests.map fun request => (create request).run, s⟩
    (∃ more, (race.after (turns ++ more)).Finished) ∧
    ((race.after turns).Finished → ∃ w request revision, requests[w]? = some request ∧
      race.WonBy turns d w revision ∧ Holds request revision (race.after turns).service)

/-- Programs that claim a missing node, and succeed where nobody comes in between, decide who
creates it. -/
theorem decides_of_claims (hs : s.FaultFree) (hsound : s.tree.Sound)
    (hp : Path.isValid d = true) (hmissing : ¬ s.tree.Has d) (hsome : requests ≠ [])
    (hclaims : ∀ request, (create request).run.Claims d (.error (.conflict d .exists)))
    (halone : ∀ request ∈ requests, ∃ revision, (s.run (create request).run).1 = .ok revision ∧
      Holds request revision (s.run (create request).run).2) :
    s.Decides d create requests Holds := by
  intro turns race
  constructor
  · obtain ⟨more, hmore⟩ := (race.after turns).exists_finished
    refine ⟨more, ?_⟩
    rw [Race.after_append]
    exact hmore
  · intro hfinished
    have hall : ∀ p ∈ requests.map fun request => (create request).run,
        p.Claims d (.error (.conflict d .exists)) := by
      intro p hp
      obtain ⟨request, _, rfl⟩ := List.mem_map.1 hp
      exact hclaims request
    obtain ⟨w, p, hprogram, hresult, hservice, hothers, htraceless⟩ :=
      Race.exists_winner hp hall hs hsound hmissing (by simpa using hsome) turns hfinished
    rw [List.getElem?_map, Option.map_eq_some_iff] at hprogram
    obtain ⟨request, hrequest, rfl⟩ := hprogram
    obtain ⟨revision, hreply, hholds⟩ := halone request (List.mem_of_getElem? hrequest)
    rw [hreply] at hresult
    refine ⟨w, request, revision, hrequest, ⟨hresult, hothers, htraceless⟩, ?_⟩
    rw [hservice]
    exact hholds

end Service

namespace Registry

/-! ## The calls that create -/

theorem claims_newEnv (id : ReleaseId) (vars : Env) :
    (standard.newEnv id vars).run.Claims id.envPath
      (.error (.conflict id.envPath .exists)) := by
  have hkeeps : (standard.newEnv id vars).Unconditional (Call.Behind id.envPath) :=
    unconditional_newEnv
  rw [newEnv_standard] at hkeeps ⊢
  refine ⟨[], _, rfl, fun path => rfl, fun reply => ?_⟩
  exact (hkeeps.2 reply).mono (fun _ hc => hc.ne_delete id.envPath_ne_root) fun _ _ => trivial

theorem claims_newConf (kind : ConfKind) (scope : Scope) (objects : OrderedMap Bytes) :
    (standard.newConf kind scope objects).run.Claims (scope.path kind)
      (.error (.conflict (scope.path kind) .exists)) := by
  have hkeeps : (standard.newConf kind scope objects).Unconditional
      (· ≠ .delete (scope.path kind)) := by
    refine ConfRequest.unconditional_new fun c hc => ?_
    rintro rfl
    cases hc with
    | read _ hread => exact hread.elim
  rw [newConf_standard] at hkeeps ⊢
  refine ⟨[], _, rfl, fun path => rfl, fun reply => ?_⟩
  exact (hkeeps.2 reply).mono (fun _ hc => hc) fun _ _ => trivial

end Registry

namespace Service

variable {s : Service} {r : Registry}

/-- An environment that is missing is created and then read as what it was created with. -/
theorem newEnv_alone (hs : s.FaultFree) (hsound : s.tree.Sound) {id : ReleaseId} {d : String}
    {v : Bytes} (hplaces : r.PlacesEnv id d v) (hvalid : Path.isValid d = true)
    (hmissing : ¬ s.tree.Has d) {vars : Env} (hvars : vars.WellFormed) :
    ∃ revision, (s.run (r.newEnv id vars).run).1 = .ok revision ∧
      ((s.run (r.newEnv id vars).run).2.run (r.getEnv id).run).1 = .ok (vars, revision) := by
  have hroot : d ≠ Path.root := hsound.ne_root_of_not_has hmissing
  obtain ⟨n, t', hnew, hn, ht'⟩ := Tree.Contains.run_newEnv hplaces hsound hs.unlocked hvalid
    hroot hmissing hvars
  obtain ⟨hreply, htree, hfaults⟩ := run_of_faults_eq_nil (r.newEnv id vars).run hs.faults
  rw [hnew] at hreply htree
  refine ⟨n, hreply, ?_⟩
  rw [(run_of_faults_eq_nil (r.getEnv id).run hfaults).1, htree, ht'.run_getEnv hplaces hroot hn]

/-- What is read of a tier: the names of its objects, and each object. -/
def TierHolds (r : Registry) (kind : ConfKind) (scope : Scope) (objects : OrderedMap Bytes)
    (revision : Nat) (s : Service) : Prop :=
  (s.run (r.listConf kind scope).run).1 = .ok (objects.keys, revision) ∧
    ∀ name data, objects.get? name = some data →
      (s.run (r.getConf kind scope name).run).1 = .ok ⟨name, data, scope.tier, revision⟩

/-- A tier that is missing is created and then read as what it was created with. -/
theorem newConf_alone (hs : s.FaultFree) (hsound : s.tree.Sound) {kind : ConfKind}
    {scope : Scope} {d : String} (hplaces : r.PlacesTier kind scope d)
    (hvalid : Path.isValid d = true) (hmissing : ¬ s.tree.Has d) {objects : OrderedMap Bytes}
    (hnames : ∀ name ∈ objects.keys, Path.IsName name) :
    ∃ revision, (s.run (r.newConf kind scope objects).run).1 = .ok revision ∧
      TierHolds r kind scope objects revision (s.run (r.newConf kind scope objects).run).2 := by
  have hroot : d ≠ Path.root := hsound.ne_root_of_not_has hmissing
  obtain ⟨t', hnew, hmakes, hholds⟩ := Tree.run_newConf hplaces hsound hs.unlocked hvalid hroot
    hmissing hnames
  obtain ⟨hreply, htree, hfaults⟩ := run_of_faults_eq_nil (r.newConf kind scope objects).run
    hs.faults
  have hsound' := (hmakes.sound hsound).1
  rw [hnew] at hreply htree
  refine ⟨objects.size, hreply, ?_, fun name data hdata => ?_⟩
  · rw [(run_of_faults_eq_nil (r.listConf kind scope).run hfaults).1, htree,
      hholds.run_listConf hplaces hsound' hroot]
    rfl
  · have hname := hholds.names name data hdata
    have hread : Program.run Tree.respond (r.readConf kind scope name).run t' =
        (.ok ⟨name, data, scope.tier, objects.size⟩, t') := by
      refine (hholds.run_readConf hplaces hsound' hroot hname).trans ?_
      rw [Directory.object, show (Directory.fresh objects).values.get? name = some data from hdata]
      rfl
    have htry : t'.run (r.getConf kind scope name).run = _ :=
      Action.run_tryCatch (r.readConf kind scope name) _ t'
    rw [(run_of_faults_eq_nil (r.getConf kind scope name).run hfaults).1, htree, htry, hread]

/-- However calls that create one missing environment take turns, exactly one of them succeeds;
the others are told that it exists and change nothing, and the environment is read as the
variables of the one that succeeded, at the revision that it answered. The same goes for
calls that create one missing tier. -/
theorem one_creation_wins (hs : s.FaultFree) (hreachable : s.tree.Reachable) :
    (∀ (id : ReleaseId) (requests : List Env), Path.isValid id.envPath = true →
      ¬ s.tree.Has id.envPath → requests ≠ [] → (∀ vars ∈ requests, vars.WellFormed) →
      s.Decides id.envPath (Registry.standard.newEnv id) requests fun vars revision s' =>
        (s'.run (Registry.standard.getEnv id).run).1 = .ok (vars, revision)) ∧
    (∀ (kind : ConfKind) (scope : Scope) (requests : List (OrderedMap Bytes)),
      Path.isValid (scope.path kind) = true → ¬ s.tree.Has (scope.path kind) → requests ≠ [] →
      (∀ objects ∈ requests, ∀ name ∈ objects.keys, Path.IsName name) →
      s.Decides (scope.path kind) (Registry.standard.newConf kind scope) requests
        (TierHolds .standard kind scope)) := by
  have hsound := hreachable.sound
  constructor
  · intro id requests hvalid hmissing hsome hvars
    exact decides_of_claims hs hsound hvalid hmissing hsome (Registry.claims_newEnv id)
      fun vars hmem => newEnv_alone hs hsound (Registry.placesEnv_standard id) hvalid
        hmissing (hvars vars hmem)
  · intro kind scope requests hvalid hmissing hsome hnames
    exact decides_of_claims hs hsound hvalid hmissing hsome (Registry.claims_newConf kind scope)
      fun objects hmem => newConf_alone hs hsound (Registry.placesTier_standard kind scope)
        hvalid hmissing (hnames objects hmem)

end Service

namespace TwoCreators

/-- A release. -/
def id : ReleaseId := ⟨"d", "s", "v"⟩

/-- What two clients want to be its variables. -/
def wanted : List Env :=
  [OrderedMap.empty.insert "PORT" "80",
    (OrderedMap.empty.insert "PORT" "81").insert "db/HOST" "h"]

/-- The clients on a new service. -/
def race : Race (Except RegistryError Nat) :=
  ⟨wanted.map fun vars => (Registry.standard.newEnv id vars).run, .fresh⟩

/-- What they want to be the objects of a tier. -/
def objects : List (OrderedMap Bytes) :=
  [OrderedMap.empty.insert "app.conf" (Text.Utf8.encode "a"), .empty]

/-- The second client begins, and then the first one comes in between. -/
def turns : List Nat := [1, 0, 1, 1, 1, 0]

/-- The second client has created the environment, and the first one has failed. -/
theorem second_creates : ∃ revision,
    (race.after turns).result? 0 = some (.error (.conflict id.envPath .exists)) ∧
      (race.after turns).result? 1 = some (.ok revision) ∧
      ((race.after turns).service.run (Registry.standard.getEnv id).run).1 =
        .ok ((OrderedMap.empty.insert "PORT" "81").insert "db/HOST" "h", revision) ∧
      Service.fresh.Decides "/conf/base/c/s"
        (Registry.standard.newConf .config (.base "c" "s")) objects
        (Service.TierHolds .standard .config (.base "c" "s")) := by
  obtain ⟨henv, hconf⟩ := @Service.one_creation_wins .fresh ⟨rfl, rfl⟩ .empty
  obtain ⟨_, hended⟩ := henv id wanted (by decide +kernel) (by decide +kernel)
    (by decide +kernel) (by decide +kernel) turns
  obtain ⟨w, vars, revision, hvars, hwon, hread⟩ := hended (by decide +kernel)
  have hfailed : ((race.after turns).result? 0).bind Except.toOption = none := by decide +kernel
  have hw : w = 1 := by
    have hlt : w < 2 := (List.getElem?_eq_some_iff.1 hvars).1
    by_cases hzero : w = 0
    · have hwinner : (race.after turns).result? w = some (.ok revision) := hwon.winner
      rw [hzero] at hwinner
      rw [hwinner] at hfailed
      cases hfailed
    · omega
  subst hw
  cases hvars
  refine ⟨revision, hwon.others 0 (by decide) (by decide), hwon.winner, hread, ?_⟩
  exact hconf .config (.base "c" "s") objects (by decide +kernel) (by decide +kernel)
    (by decide +kernel) (by decide +kernel)

end TwoCreators

end Coordination
