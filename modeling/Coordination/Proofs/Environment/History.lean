import Coordination.Proofs.Environment.Effects
import Coordination.Proofs.Environment.Reading
import Coordination.Proofs.Environment.Revision

/-!
# What requests leave of an environment

The history of an environment lists the requests that were served; its log are the writes that
they asked for and that took effect. Whatever the requests are and however they end, the log
accounts for what is recorded below the root, from when the root is missing on. What is listed
was therefore written last with its value, or it is the group that an interrupted request
emptied but did not prune. In turn what was written last is listed, unless something below it
is listed in its place or it was empty and was pruned.
-/

namespace Coordination

namespace Tree

/-- The root is missing and nothing was written, or the log accounts for what is recorded. -/
inductive Logged (t : Tree) (d : String) (log : List Call) (idle : String → Prop) : Prop where
  | missing (sound : t.Sound) (unlocked : t.locked = none) (absent : ¬ t.Has d)
    (nothing : log = [])
  | recorded {env : Env} (records : t.Records d env idle) (accounts : Accounts d log env)

namespace Logged

variable {t : Tree} {d : String} {log : List Call} {idle idle' : String → Prop}

theorem sound (h : t.Logged d log idle) : t.Sound := by
  cases h with
  | missing sound unlocked absent nothing => exact sound
  | recorded records accounts => exact records.sound

theorem mono (h : t.Logged d log idle) (hidle : ∀ g, idle g → idle' g) :
    t.Logged d log idle' := by
  cases h with
  | missing sound unlocked absent nothing => exact .missing sound unlocked absent nothing
  | recorded records accounts => exact .recorded (records.mono hidle) accounts

theorem of_has (h : t.Logged d log idle) (hd : t.Has d) :
    ∃ env, t.Records d env idle ∧ Accounts d log env := by
  cases h with
  | missing sound unlocked absent nothing => exact absurd hd absent
  | recorded records accounts => exact ⟨_, records, accounts⟩

end Logged

end Tree

/-! ## Histories -/

/-- A request that was served, and the service before. -/
structure Served where
  before : Service
  request : EnvRequest

namespace Served

variable (id : ReleaseId) (h : Served)

/-- What was answered. -/
def reply : Except RegistryError Answer := (h.request.serve id h.before).1

/-- What took effect of what was asked for. -/
def writes : List Call := h.request.writes id h.before

/-- A request ended midway after it had deleted a node of the group. -/
def Interrupted (g : String) : Prop := (progress? (h.reply id)).isSome ∧ Emptied (h.writes id) g

/-- All that was asked for took effect; what was not there did not have to be deleted. -/
structure Complete : Prop where
  stored : ∀ w ∈ Registry.variableCells id h.request.update,
    .create w.1 w.2 ∈ h.writes id ∨ .set w.1 w.2 ∈ h.writes id
  deleted : ∀ p ∈ h.request.deletedPaths id, .delete p ∈ h.writes id ∨ ¬ h.before.tree.Has p

end Served

namespace EnvRequest

variable (id : ReleaseId)

/-- Requests as they are served one after another. -/
def history (s : Service) : List EnvRequest → List Served
  | [] => []
  | q :: rest => ⟨s, q⟩ :: history (q.serve id s).2 rest

/-- What was asked for and took effect, in the order in which it did. -/
def log (h : List Served) : List Call := h.flatMap (Served.writes id)

end EnvRequest

/-! ## A single request -/

namespace Tree.Logged

variable {id : ReleaseId} {q : EnvRequest} {c : DirectoryChange} {s s₁ s₂ s' : Service}
variable {path : String} {b : Batch} {log : List Call} {idle : String → Prop} {env : Env}

/-- When the batch is found, the root is there. -/
theorem prepared (h : s.tree.Logged id.envPath log idle) (hc : q.change? id = some c)
    (hprepared : c.Prepared .standard s path b s₁) :
    ∃ env, s₁.tree.Records id.envPath env idle ∧ Accounts id.envPath log env := by
  have hroot := EnvRequest.root_of_change hc
  cases hprepared with
  | created new root writes_eq valid missing tree =>
    obtain ⟨rfl, rfl⟩ := Prod.mk.inj (Except.ok.inj (root.symm.trans hroot))
    rw [tree]
    cases h with
    | missing sound unlocked absent nothing =>
      rw [nothing]
      exact ⟨.empty, .of_created sound unlocked valid absent idle, .empty _⟩
    | recorded records accounts => exact absurd records.there missing
  | planned old root writes_eq deletes_eq revision tree split kept =>
    obtain ⟨rfl, _⟩ := Prod.mk.inj (Except.ok.inj (root.symm.trans hroot))
    rw [tree]
    exact h.of_has (has_iff_revision?.2 ⟨_, revision⟩)

/-- When the batch is applied, nothing is written or the groups are pruned. -/
theorem finished (hc : q.change? id = some c) (hq : q.Named) (hs₂ : s₂.faults = [])
    (h : s₂.tree.Records id.envPath env fun g => idle g ∨ ∃ p ∈ b.deletes, Path.parent? p = some g)
    (hdeletes : ∀ p ∈ b.deletes, p ∈ q.deletedPaths id) {n : ChangeSummary}
    {reply : Except RegistryError Answer}
    (hfinish : s₂.run (c.finish id.envPath b n).run = (reply, s')) :
    ∃ env', s'.tree.Records id.envPath env' idle ∧
      env.Pruned (fun x => ∃ p ∈ b.deletes, Path.Below (id.envPath ++ "/" ++ x) p) env' := by
  cases q with
  | read => cases hc
  | new vars =>
    cases hc
    rw [(DirectoryChange.reads_finish id vars id.envPath b n).tree hfinish]
    refine ⟨env, h.mono fun g hg => ?_, .refl _ env⟩
    rcases hg with hidle | ⟨p, hp, _⟩
    · exact hidle
    · exact nomatch hdeletes p hp
  | save change revision =>
    cases hc
    have hvalid : ∀ p ∈ b.deletes, Path.isValid p = true := by
      intro p hp
      obtain ⟨x, hx, rfl⟩ := List.mem_map.1 (hdeletes p hp)
      exact Path.isValid_cut h.valid id.envPath_ne_root (hq.2 x hx)
    obtain ⟨m, t', env', hprune, ht', hpruned, _⟩ :=
      h.run_pruneGroups id.envPath_ne_root hvalid
    obtain ⟨_, htree, _⟩ := Service.run_of_faults_eq_nil
      (DirectoryChange.finish id.envPath b n (.saveEnv id change revision)).run hs₂
    have hrun : s₂.tree.run
        (DirectoryChange.finish id.envPath b n (.saveEnv id change revision)).run =
          (.ok (.summary n), t') := run_bind_ok hprune
    rw [hfinish, hrun] at htree
    rw [htree]
    exact ⟨env', ht', hpruned⟩

/-- A batch that is applied, and pruned after, keeps the log and the record in step. -/
theorem applied (hc : q.change? id = some c) (hq : q.Named) (hs₂ : s₂.faults = [])
    (hprepared : c.Prepared .standard s id.envPath b s₁)
    (h : s₁.tree.Records id.envPath env idle) (ha : Accounts id.envPath log env)
    (hmakes : s₁.tree.Makes b.calls s₂.tree) {reply : Except RegistryError Answer}
    (hfinish : s₂.run (c.finish id.envPath b b.summary).run = (reply, s')) :
    s'.tree.Logged id.envPath
      (log ++ (b.calls ++ (s₂.effects (c.finish id.envPath b b.summary).run).filter (q.asks id)))
      idle := by
  have hd := id.envPath_ne_root
  have hasked {call : Call} (hcall : call ∈ b.calls) : call.ForVariable id.envPath :=
    EnvRequest.forVariable_of_asks hq (EnvRequest.asks_of_mem_calls hc hprepared hcall)
  obtain ⟨_, hdeletes, _⟩ := EnvRequest.batch_of_prepared hc hprepared
  obtain ⟨env₂, h₂, ha₂⟩ := h.makes ha hd hmakes fun call hcall => hasked hcall
  -- The groups that the batch leaves empty are those of its deletions, which are then pruned.
  have hemptied : ∀ g, idle g ∨ Emptied b.calls g →
      idle g ∨ ∃ p ∈ b.deletes, Path.parent? p = some g := by
    intro g hg
    refine hg.imp_right fun ⟨p, hp, hparent⟩ => ?_
    exact ⟨p, Batch.delete_mem_calls.1 hp, hparent⟩
  obtain ⟨env', h', hpruned⟩ := finished hc hq hs₂ (h₂.mono hemptied) hdeletes hfinish
  have hpaths : ∀ p ∈ b.deletes, ∃ y, Path.IsRelative y ∧ p = id.envPath ++ "/" ++ y := by
    intro p hp
    obtain ⟨y, hy, rfl⟩ := List.mem_map.1 (hdeletes p hp)
    exact ⟨y, hq.2 y hy, rfl⟩
  rw [Batch.calls, ← List.append_assoc] at ha₂
  have ha' := ha₂.pruned hd hpaths h₂.relative hpruned
  rw [List.append_assoc, ← Batch.calls] at ha'
  have hgone : ∀ call ∈ (s₂.effects (c.finish id.envPath b b.summary).run).filter (q.asks id),
      ∃ g, call = .delete g ∧ ¬ s'.tree.Has g := by
    intro call hcall
    have hdeleted := Service.deleted_of_prunes (EnvRequest.keeps_finish hc b b.summary)
      (List.mem_filter.1 hcall).1
    rwa [hfinish] at hdeleted
  rw [← List.append_assoc]
  refine .recorded h' (ha'.absent (fun call hcall => ?_) fun x hx call hcall => ?_)
  · obtain ⟨g, rfl, _⟩ := hgone call hcall
    rfl
  · obtain ⟨g, rfl, hnot⟩ := hgone call hcall
    rintro rfl
    exact hnot (h'.has_variable hx)

/-- Whichever course a change takes, it keeps the log and the record in step. -/
theorem course (h : s.tree.Logged id.envPath log idle) (hs : s.faults = []) (hq : q.Named)
    (hc : q.change? id = some c) {reply : Except RegistryError Answer}
    {tried : List (Call × Option TreeError)} (hcourse : c.Course .standard s reply s' tried)
    (htrace : s.trace (c.step.action .standard).run = tried) :
    s'.tree.Logged id.envPath (log ++ q.writes id s)
      fun g => idle g ∨ ((progress? reply).isSome ∧ Emptied (q.writes id s) g) := by
  have hd := id.envPath_ne_root
  cases hcourse with
  | unprepared hprepare =>
    have hwrites := EnvRequest.writes_of_trace hc (htrace.trans (List.append_nil _).symm)
    have htree := DirectoryChange.spares_prepare (EnvRequest.writes_of_change hc) _ _ _ hprepare
    rw [hwrites, htree]
    exact (List.append_nil log).symm ▸ h.mono fun g => Or.inl
  | stopped hprepare hprepared houtcome =>
    obtain rfl := EnvRequest.path_of_prepared hc hprepared
    have hwrites := EnvRequest.writes_of_trace hc htrace
    obtain ⟨env, h₁, ha⟩ := h.prepared hc hprepared
    cases houtcome with
    | some calls applied makes =>
      rw [Call.effective_append, List.filter_append, Call.effective_failed, List.filter_nil,
        List.append_nil, EnvRequest.filter_done hc hprepared calls] at hwrites
      obtain ⟨env', h', ha'⟩ := h₁.makes ha hd makes fun call hcall =>
        EnvRequest.forVariable_of_asks hq (EnvRequest.asks_of_mem_calls hc hprepared
          (calls ▸ List.mem_append_left _ hcall))
      rw [hwrites]
      exact .recorded (h'.mono fun g hg => hg.imp_right fun he => ⟨rfl, he⟩) ha'
    | none calls first unchanged =>
      rw [Call.effective_failed, List.filter_nil] at hwrites
      rw [hwrites, unchanged]
      exact .recorded (h₁.mono fun g => Or.inl) ((List.append_nil log).symm ▸ ha)
  | @applied path b s₁ s₂ s' tried reply hprepare hprepared happly houtcome hfinish =>
    obtain rfl := EnvRequest.path_of_prepared hc hprepared
    have hwrites := EnvRequest.writes_of_trace hc htrace
    obtain ⟨env, h₁, ha⟩ := h.prepared hc hprepared
    have hs₁ := (Service.run_of_faults_eq_nil (c.prepare .standard).run hs).2.2
    rw [hprepare] at hs₁
    have hs₂ := (Service.run_of_faults_eq_nil (b.apply (c.lead id.envPath)).run hs₁).2.2
    rw [happly] at hs₂
    cases houtcome with
    | all makes =>
      rw [Call.effective_append, List.filter_append,
        EnvRequest.filter_done hc hprepared (List.append_nil _).symm] at hwrites
      rw [hwrites]
      exact (applied hc hq hs₂ hprepared h₁ ha makes hfinish).mono fun g => Or.inl

/-- A request keeps the log and the record in step. -/
theorem serve (h : s.tree.Logged id.envPath log idle) (hs : s.faults = []) (hq : q.Named) :
    (q.serve id s).2.tree.Logged id.envPath (log ++ q.writes id s)
      fun g => idle g ∨ Served.Interrupted id ⟨s, q⟩ g := by
  cases hc : q.change? id with
  | none =>
    cases q with
    | new vars => cases hc
    | save change revision => cases hc
    | read =>
      have hreads : (EnvRequest.read.action id).Reads :=
        (Registry.standard.reads_getEnv id).bind fun _ => Action.reads_pure _
      have hwrites : EnvRequest.read.writes id s = [] := by
        rw [EnvRequest.writes, Service.effects_of_reads hreads]
        rfl
      have htree : (EnvRequest.read.serve id s).2.tree = s.tree := hreads.tree rfl
      rw [hwrites, List.append_nil, htree]
      exact h.mono fun g => Or.inl
  | some c =>
    have hcourse := c.course_of_run .standard s
    rw [← EnvRequest.action_of_change hc] at hcourse
    exact h.course hs hq hc hcourse (by rw [EnvRequest.action_of_change hc])

/-- Requests keep the log and the record in step. -/
theorem serveAll (h : s.tree.Logged id.envPath log idle) (hs : s.faults = [])
    {requests : List EnvRequest} (hnamed : ∀ q ∈ requests, q.Named) :
    (EnvRequest.serveAll id s requests).tree.Logged id.envPath
      (log ++ EnvRequest.log id (EnvRequest.history id s requests))
      fun g => idle g ∨ ∃ h ∈ EnvRequest.history id s requests, h.Interrupted id g := by
  induction requests generalizing s log idle with
  | nil =>
    show s.tree.Logged id.envPath (log ++ []) _
    rw [List.append_nil]
    exact h.mono fun g => Or.inl
  | cons q rest ih =>
    obtain ⟨hq, hrest⟩ := List.forall_mem_cons.1 hnamed
    have hserved := ih (h.serve hs hq) (EnvRequest.faults_serve id q hs) hrest
    rw [List.append_assoc] at hserved
    refine hserved.mono fun g hg => ?_
    rcases hg with (hidle | hnow) | ⟨later, hlater, hinterrupted⟩
    · exact Or.inl hidle
    · exact Or.inr ⟨⟨s, q⟩, List.mem_cons_self, hnow⟩
    · exact Or.inr ⟨later, List.mem_cons_of_mem _ hlater, hinterrupted⟩

end Tree.Logged

end Coordination
