import Coordination.Proofs.Environment.History

/-!
# What is listed and what was written

From a missing root on, whatever is requested and however the requests end, reading lists
nothing but what was written last with its value and not deleted since, and empty names that a
request left which was interrupted before it could prune them. In turn, after the root was
created reading lists what was written last, except for names that a longer name hides, and for
empty ones that may have been pruned.
-/

namespace Coordination

namespace EnvRequest

variable {id : ReleaseId} {s : Service} {log : List Call} {idle : String → Prop}

/-- Where the root is there, a read lists what has no children, with the value that is
recorded. -/
theorem exists_listed (h : s.tree.Logged id.envPath log idle) (hs : s.faults = [])
    (hhas : s.tree.Has id.envPath) :
    ∃ env r recorded, listed? (EnvRequest.read.serve id s).1 = some (env, r) ∧
      s.tree.Records id.envPath recorded idle ∧ Accounts id.envPath log recorded ∧
      ∀ x v, env.get? x = some v ↔ (s.tree.Has (id.envPath ++ "/" ++ x) ∧
        Path.Below id.envPath (id.envPath ++ "/" ++ x) ∧
        s.tree.childPaths (id.envPath ++ "/" ++ x) = []) ∧ v = (recorded.get? x).getD "" := by
  obtain ⟨recorded, hrecords, haccounts⟩ := h.of_has hhas
  obtain ⟨r, hr⟩ := Tree.has_iff_revision?.1 hhas
  obtain ⟨env, hget, henv⟩ :=
    hrecords.run_getEnv (Registry.placesEnv_standard id) id.envPath_ne_root hr
  obtain ⟨hreply, _, _⟩ := Service.run_of_faults_eq_nil (EnvRequest.read.action id).run hs
  have hrun : s.tree.run (EnvRequest.read.action id).run = (.ok (.env env r), s.tree) :=
    Tree.run_bind_ok hget
  have hlisted : listed? (EnvRequest.read.serve id s).1 = some (env, r) := by
    rw [serve, hreply, hrun]
    rfl
  exact ⟨env, r, recorded, hlisted, hrecords, haccounts, henv⟩

/-- What is listed was written last, or it is an empty group that was not pruned. -/
theorem written_or_idle (h : s.tree.Logged id.envPath log idle) (hs : s.faults = []) {env : Env}
    {r : Nat} (hread : listed? (EnvRequest.read.serve id s).1 = some (env, r)) {x v : String}
    (hx : env.get? x = some v) :
    (∃ after, LastWritten log (id.envPath ++ "/" ++ x) (Text.Utf8.encode v) after) ∨
      (v = "" ∧ idle (id.envPath ++ "/" ++ x)) := by
  obtain ⟨⟨s', hget⟩, _⟩ := getEnv_of_read id hread
  obtain ⟨hr, _⟩ := Service.names_of_getEnv h.sound hget
  obtain ⟨env', r', recorded, hlisted, hrecords, haccounts, henv⟩ :=
    exists_listed h hs (Tree.has_iff_revision?.2 ⟨r, hr⟩)
  obtain ⟨rfl, rfl⟩ := Prod.mk.inj (Option.some.inj (hlisted.symm.trans hread))
  obtain ⟨⟨hhas, hbelow, hleaf⟩, hv⟩ := (henv x v).1 hx
  cases hrecorded : recorded.get? x with
  | some w =>
    left
    rw [hrecorded] at hv
    rw [hv]
    exact haccounts.written x w hrecorded
  | none =>
    right
    rw [hrecorded] at hv
    obtain ⟨_, hchildren | hidle⟩ := hrecords.of_not_variable hhas hbelow hrecorded
    · exact absurd hleaf hchildren
    · exact ⟨hv, hidle⟩

/-- What was written last is listed, or hidden, or it may have been pruned. -/
theorem listed_or_hidden (h : s.tree.Logged id.envPath log idle) (hs : s.faults = [])
    (hhas : s.tree.Has id.envPath) :
    ∃ env r, listed? (EnvRequest.read.serve id s).1 = some (env, r) ∧
      ∀ x v after, LastWritten log (id.envPath ++ "/" ++ x) (Text.Utf8.encode v) after →
        env.get? x = some v ∨ (∃ y ∈ env.keys, Path.startsWith (x ++ "/") y = true) ∨
          (v = "" ∧ ∃ y, .delete (id.envPath ++ "/" ++ y) ∈ after ∧
            Path.startsWith (x ++ "/") y = true) := by
  have hd := id.envPath_ne_root
  obtain ⟨env, r, recorded, hlisted, hrecords, haccounts, henv⟩ := exists_listed h hs hhas
  refine ⟨env, r, hlisted, fun x v after hlast => ?_⟩
  rcases haccounts.kept x v after hlast with hx | hpruned
  · have hcontains : recorded.contains x = true := by rw [OrderedMap.contains, hx]; rfl
    have hrelative := hrecords.relative x hcontains
    have hnode := hrecords.has_variable hcontains
    have hbelow := Path.below_cut hd hrelative.ne_empty
    -- A variable is listed if nothing is below it; otherwise a leaf below it is.
    obtain ⟨q, hq, hleaf, hself | hxq⟩ := h.sound.exists_leaf hnode
    · left
      subst hself
      exact (henv x v).2 ⟨⟨hnode, hbelow, hleaf⟩, by rw [hx]; rfl⟩
    · right
      left
      have hdq := Path.below_trans hbelow hxq
      obtain ⟨y, hy, rfl⟩ := hdq.exists_cut hrecords.valid hd (h.sound.valid hq)
      have hlistedy := (henv y _).2 ⟨⟨hq, hdq, hleaf⟩, rfl⟩
      refine ⟨y, OrderedMap.contains_iff_mem_keys.1 ?_, ?_⟩
      · rw [OrderedMap.contains, hlistedy]
        rfl
      · exact (Path.below_cut_iff hd hrelative.ne_empty hy.ne_empty).1 hxq
  · exact Or.inr (Or.inr hpruned)

/-! ## Requests that succeed -/

/-- A change that succeeds has done all that is asked for. -/
theorem complete_of_course {q : EnvRequest} {c : DirectoryChange} (hs : s.faults = [])
    (hc : q.change? id = some c) {reply : Except RegistryError Answer} {s' : Service}
    {tried : List (Call × Option TreeError)} (hcourse : c.Course .standard s reply s' tried)
    (htrace : s.trace (c.step.action .standard).run = tried) (hok : reply.isOk = true) :
    Served.Complete id ⟨s, q⟩ := by
  cases hcourse with
  | unprepared hprepare => cases hok
  | stopped hprepare hprepared houtcome => cases hok
  | @applied path b s₁ s₂ s' tried reply hprepare hprepared happly houtcome hfinish =>
    have hwrites := writes_of_trace hc htrace
    obtain ⟨hstored, _, hdeleted⟩ := batch_of_prepared hc hprepared
    cases houtcome with
    | all makes =>
      rw [Call.effective_append, List.filter_append,
        filter_done hc hprepared (List.append_nil _).symm] at hwrites
      have hmem {call : Call} (hcall : call ∈ b.calls) : call ∈ q.writes id s := by
        rw [hwrites]
        exact List.mem_append_left _ hcall
      constructor
      · intro w hw
        refine ((hstored w).1 hw).imp (fun hcreate => hmem ?_) fun hset => hmem ?_
        · exact Batch.mem_calls.2 (Or.inl ⟨w, hcreate, rfl⟩)
        · exact Batch.mem_calls.2 (Or.inr (Or.inl ⟨w, hset, rfl⟩))
      · intro p hp
        refine (hdeleted p hp).imp (fun hdelete => hmem ?_) fun hlacks => hlacks.not_has hs
        exact Batch.delete_mem_calls.2 hdelete

theorem complete_of_isOk {q : EnvRequest} (hs : s.faults = [])
    (hok : (q.serve id s).1.isOk = true) : Served.Complete id ⟨s, q⟩ := by
  cases hc : q.change? id with
  | none =>
    cases q with
    | new vars => cases hc
    | save change revision => cases hc
    | read => exact ⟨fun w hw => (nomatch hw), fun p hp => nomatch hp⟩
  | some c =>
    have hcourse := c.course_of_run .standard s
    rw [serve, action_of_change hc] at hok
    exact complete_of_course hs hc hcourse rfl hok

theorem complete_of_mem_history {requests : List EnvRequest} (hs : s.faults = []) {h : Served}
    (hh : h ∈ history id s requests) (hok : (h.reply id).isOk = true) : h.Complete id := by
  induction requests generalizing s with
  | nil => cases hh
  | cons q rest ih =>
    rcases List.mem_cons.1 hh with rfl | hh
    · exact complete_of_isOk hs hok
    · exact ih (faults_serve id q hs) hh

/-- Creating an environment succeeds only where there was none, and then there is one. -/
theorem has_of_new {vars : Env} (hok : ((EnvRequest.new vars).serve id s).1.isOk = true) :
    ¬ s.tree.Has id.envPath ∧ ((EnvRequest.new vars).serve id s).2.tree.Has id.envPath := by
  rcases hserve : (EnvRequest.new vars).serve id s with ⟨e | answer, s'⟩
  · rw [hserve] at hok
    cases hok
  · obtain ⟨r, s₁, hnew, hpure⟩ := Service.exists_of_run_bind_eq_ok hserve
    rw [Registry.newEnv_standard] at hnew
    obtain ⟨n, s₂, hcreate, hrest⟩ := Service.exists_of_run_bind_eq_ok hnew
    obtain ⟨summary, s₃, happly, hread⟩ := Service.exists_of_run_bind_eq_ok hrest
    obtain ⟨root, s₄, hnode, hrevision⟩ := Service.exists_of_run_bind_eq_ok hread
    obtain ⟨_, hmissing, _⟩ := Service.created_of_run_createNew hcreate
    obtain ⟨htree, hr⟩ := Service.revision?_of_run_node hnode
    cases hrevision
    cases hpure
    refine ⟨hmissing, ?_⟩
    rw [htree]
    exact Tree.has_iff_revision?.2 ⟨_, hr⟩

/-! ## Runs of requests -/

/-- A tree without the root has nothing recorded. -/
theorem logged_of_missing (hs : s.FaultFree) (hreachable : s.tree.Reachable)
    (hmissing : ¬ s.tree.Has id.envPath) :
    s.tree.Logged id.envPath [] fun _ => False :=
  .missing hreachable.sound hs.unlocked hmissing rfl

/-- Whatever was requested since the root was missing, and however it ended: what is listed was
written last with its value, and not deleted since, or it is listed as empty because a request
that was interrupted midway had deleted a node of it. -/
theorem written_of_listed (hs : s.FaultFree) (hreachable : s.tree.Reachable)
    (hmissing : ¬ s.tree.Has id.envPath) {requests : List EnvRequest}
    (hnamed : ∀ q ∈ requests, q.Named) {env : Env} {r : Nat}
    (hread : listed? (EnvRequest.read.serve id (serveAll id s requests)).1 = some (env, r))
    {x v : String} (hx : env.get? x = some v) :
    (∃ after, LastWritten (EnvRequest.log id (history id s requests)) (id.envPath ++ "/" ++ x)
        (Text.Utf8.encode v) after) ∨
      (v = "" ∧ ∃ h ∈ history id s requests, h.Interrupted id (id.envPath ++ "/" ++ x)) := by
  have hlogged := (logged_of_missing hs hreachable hmissing).serveAll hs.faults hnamed
  rcases written_or_idle hlogged (faults_serveAll id requests hs.faults) hread hx with
    hwritten | ⟨hempty, hnever | hinterrupted⟩
  · exact Or.inl hwritten
  · exact hnever.elim
  · exact Or.inr ⟨hempty, hinterrupted⟩

end EnvRequest

namespace LeftEmpty

/-- A release. -/
def id : ReleaseId := ⟨"d", "s", "v"⟩

/-- A variable in a group, and one that another name continues. -/
def vars : Env :=
  ((OrderedMap.empty.insert "a/X" "1").insert "b" "2").insert "b/Y" "3"

/-- The deletion of both; the second has a node below it and cannot be deleted. -/
def change : EnvChange := ⟨.empty, (OrderedMap.empty.insert "a/X" ()).insert "b" ()⟩

/-- The environment is created, and the change stops midway. -/
def requests : List EnvRequest := [.new vars, .save change 2]

/-- What reading lists afterwards. -/
def listed : Env := (OrderedMap.empty.insert "a" "").insert "b/Y" "3"

/-- The group of the deleted variable is listed, although no request has written such a name. -/
theorem group_listed :
    EnvRequest.listed? (EnvRequest.read.serve id (EnvRequest.serveAll id .fresh requests)).1 =
        some (listed, 2) ∧
      listed.get? "a" = some "" ∧ ∀ q ∈ requests, q.update.contains "a" = false :=
  ⟨by decide +kernel, by decide +kernel, by decide +kernel⟩

/-- The request that stopped midway has left the group. -/
theorem left_by_interrupted :
    ∃ h ∈ EnvRequest.history id .fresh requests, h.Interrupted id (id.envPath ++ "/" ++ "a") := by
  have hnamed : ∀ q ∈ requests, q.Named := by decide +kernel
  have hread : EnvRequest.listed? (EnvRequest.read.serve id
      (EnvRequest.serveAll id .fresh requests)).1 = some (listed, 2) := by decide +kernel
  have hnever : ∀ c ∈ EnvRequest.log id (EnvRequest.history id .fresh requests),
      c.path ≠ id.envPath ++ "/" ++ "a" := by decide +kernel
  rcases EnvRequest.written_of_listed ⟨rfl, rfl⟩ .empty (by decide +kernel) hnamed hread
    (show listed.get? "a" = some "" by decide +kernel) with ⟨after, hlast⟩ | ⟨_, hleft⟩
  · obtain ⟨c, hc, hpath⟩ := hlast.exists_call
    exact absurd hpath (hnever c hc)
  · exact hleft

end LeftEmpty

namespace EnvRequest

variable {id : ReleaseId} {s : Service}

/-- Once the root was created, and whatever was requested since: each request that succeeded
has done all that it asked for, reading succeeds, and what was written last and not deleted
since is listed with its value, unless a name that continues it is listed, or it was written
empty and a name that continues it was deleted later. -/
theorem listed_of_written (hs : s.FaultFree) (hreachable : s.tree.Reachable) {vars : Env}
    {rest : List EnvRequest} (hnamed : ∀ q ∈ .new vars :: rest, q.Named)
    (hnew : ((EnvRequest.new vars).serve id s).1.isOk = true) :
    let requests := .new vars :: rest
    (∀ h ∈ history id s requests, (h.reply id).isOk = true → h.Complete id) ∧
      ∃ env r, listed? (EnvRequest.read.serve id (serveAll id s requests)).1 = some (env, r) ∧
        ∀ x v after, LastWritten (EnvRequest.log id (history id s requests))
            (id.envPath ++ "/" ++ x) (Text.Utf8.encode v) after →
          env.get? x = some v ∨ (∃ y ∈ env.keys, Path.startsWith (x ++ "/") y = true) ∨
            (v = "" ∧ ∃ y, .delete (id.envPath ++ "/" ++ y) ∈ after ∧
              Path.startsWith (x ++ "/") y = true) := by
  intro requests
  obtain ⟨hmissing, hcreated⟩ := has_of_new hnew
  have hlogged := (logged_of_missing hs hreachable hmissing).serveAll hs.faults hnamed
  have hsound : ((EnvRequest.new vars).serve id s).2.tree.Sound :=
    Service.sound_run _ hreachable.sound
  have hhas : (serveAll id s requests).tree.Has id.envPath :=
    (passage_serveAll id rest hsound hcreated).has
  refine ⟨fun h hh hok => complete_of_mem_history hs.faults hh hok, ?_⟩
  exact listed_or_hidden hlogged (faults_serveAll id requests hs.faults) hhas

end EnvRequest

namespace Continued

/-- A release. -/
def id : ReleaseId := ⟨"d", "s", "v"⟩

/-- A variable that another name continues. -/
def vars : Env := (OrderedMap.empty.insert "a" "1").insert "a/b" "2"

/-- The same with the empty value, and another variable. -/
def emptied : Env := ((OrderedMap.empty.insert "a" "").insert "a/b" "2").insert "c" "3"

/-- The deletion of the longer name. -/
def deletion : EnvRequest := .save ⟨.empty, OrderedMap.empty.insert "a/b" ()⟩ 2

/-- The service after it. -/
def shortened : Service := EnvRequest.serveAll id .fresh [.new emptied, deletion]

/-- All requests succeed and only the longer name is deleted, but the other one is not listed:
first because the longer name hides it, then because it is pruned with it. -/
theorem not_listed :
    ((EnvRequest.new vars).serve id .fresh).1.isOk = true ∧
      EnvRequest.listed? (EnvRequest.read.serve id
        (EnvRequest.serveAll id .fresh [.new vars])).1 =
          some (OrderedMap.empty.insert "a/b" "2", 1) ∧
      EnvRequest.saved? (deletion.serve id
        (EnvRequest.serveAll id .fresh [.new emptied])).1 = some ⟨0, 0, 1⟩ ∧
      EnvRequest.listed? (EnvRequest.read.serve id shortened).1 =
        some (OrderedMap.empty.insert "c" "3", 3) :=
  ⟨by decide +kernel, by decide +kernel, by decide +kernel, by decide +kernel⟩

/-- A variable whose name is not continued stays. -/
theorem other_listed :
    ∃ env r, EnvRequest.listed? (EnvRequest.read.serve id shortened).1 = some (env, r) ∧
      (env.get? "c" = some "3" ∨ ∃ y ∈ env.keys, Path.startsWith ("c" ++ "/") y = true) := by
  have hnamed : ∀ q ∈ [.new emptied, deletion], q.Named := by decide +kernel
  have hnew : ((EnvRequest.new emptied).serve id .fresh).1.isOk = true := by decide +kernel
  obtain ⟨_, env, r, hread, hlisted⟩ :=
    @EnvRequest.listed_of_written id .fresh ⟨rfl, rfl⟩ .empty emptied [deletion] hnamed hnew
  have honce : ((EnvRequest.log id (EnvRequest.history id .fresh [.new emptied, deletion])).filter
      fun c => c.path = id.envPath ++ "/" ++ "c").map Call.stored? =
        [some (id.envPath ++ "/" ++ "c", Text.Utf8.encode "3")] := by decide +kernel
  obtain ⟨after, hlast⟩ := lastWritten_of_once honce
  refine ⟨env, r, hread, ?_⟩
  rcases hlisted "c" "3" after hlast with hlists | hhidden | ⟨hempty, _⟩
  · exact Or.inl hlists
  · exact Or.inr hhidden
  · exact absurd hempty (by decide)

end Continued

end Coordination
