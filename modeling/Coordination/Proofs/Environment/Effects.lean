import Coordination.Proofs.Environment.Log
import Coordination.Proofs.Environment.Requests
import Coordination.Proofs.Registry.Errors

/-!
# What requests write

A request that changes an environment asks for some variables to be stored and some names to be
deleted. Of the writes that take effect while it is served, those that it asks for are told from
those on the way, which are the creation of the root and the deletions of groups in pruning.
Every call of its batch is asked for, and nothing is that comes before.
-/

namespace Coordination

/-! ## Reading and pruning -/

namespace Service

variable {α : Type} {s : Service} {d : String}

/-- Reading has no effect. -/
theorem effects_of_reads {x : Action α} (hx : x.Reads) : s.effects x.run = [] := by
  rw [List.eq_nil_iff_forall_not_mem]
  intro c hc
  obtain ⟨hread, hwrite⟩ := allowed_of_mem_effects hx hc
  rw [Call.IsRead.not_isWrite hread] at hwrite
  cases hwrite

/-- Pruning brings no node back. -/
theorem has_of_prunes {ends : α → Prop} {p : Program α} (hp : p.Keeps (Call.Prunes d) ends)
    {q : String} (h : (s.run p).2.tree.Has q) : s.tree.Has q := by
  have hkeeps : (s.run p).2.tree.Has q → s.tree.Has q := by
    refine Program.Keeps.run_invariant (I := fun s₁ : Service => s₁.tree.Has q → s.tree.Has q) hp
      ?_ fun h => h
    intro c s₁ hc hold hnew
    refine hold ?_
    rcases hc with hread | ⟨g, rfl, _⟩
    · rwa [hread.tree] at hnew
    · have hchange := s₁.change_answer (.delete g)
      generalize (s₁.answer (.delete g)).2.tree = t at hchange hnew
      cases hchange with
      | none => exact hnew
      | delete child there leaf => exact (Tree.has_removed.1 hnew).2
  exact hkeeps h

/-- What takes effect in pruning are deletions of nodes that are not there afterwards. -/
theorem deleted_of_prunes {ends : α → Prop} {p : Program α} (hp : p.Keeps (Call.Prunes d) ends)
    {c : Call} (hc : c ∈ s.effects p) : ∃ g, c = .delete g ∧ ¬ (s.run p).2.tree.Has g := by
  induction p generalizing s with
  | done a => cases hc
  | call c' next ih =>
    rcases mem_effects_call hc with ⟨rfl, hwrite, reply, hreply⟩ | hrest
    · rcases hp.1 with hread | ⟨g, rfl, _⟩
      · rw [hread.not_isWrite] at hwrite
        cases hwrite
      · obtain ⟨parent, _, _, _, htree⟩ := Tree.removed_of_respond (respond_of_answer hreply)
        refine ⟨g, rfl, fun hhas => ?_⟩
        have hback : (s.answer (.delete g)).2.tree.Has g := has_of_prunes (hp.2 _) hhas
        rw [htree, Tree.has_removed] at hback
        exact hback.1 rfl
    · exact ih _ (hp.2 _) hrest

end Service

/-! ## What is asked for -/

namespace EnvRequest

/-- The variables that a request stores. -/
def update : EnvRequest → Env
  | .read => .empty
  | .new vars => vars
  | .save change _ => change.update

/-- The names that a request deletes. -/
def drops : EnvRequest → List String
  | .read | .new _ => []
  | .save change _ => change.delete.keys

/-- No segment of a name is empty. -/
def Named (q : EnvRequest) : Prop :=
  (∀ x ∈ q.update.keys, Path.IsRelative x) ∧ ∀ x ∈ q.drops, Path.IsRelative x

instance (q : EnvRequest) : Decidable q.Named := inferInstanceAs (Decidable (_ ∧ _))

variable (id : ReleaseId)

/-- The paths that a request deletes. -/
def deletedPaths (q : EnvRequest) : List String := q.drops.map fun x => id.envPath ++ "/" ++ x

/-- Whether a call stores a variable or deletes a name as the request asks for. -/
def asks (q : EnvRequest) : Call → Bool
  | .create p v | .set p v => decide ((p, v) ∈ Registry.variableCells id q.update)
  | .delete p => decide (p ∈ q.deletedPaths id)
  | .get _ | .visit .. => false

/-- The writes that a request asks for and that take effect when it is served. -/
def writes (q : EnvRequest) (s : Service) : List Call :=
  (s.effects (q.action id).run).filter (q.asks id)

variable {id} {q : EnvRequest}

theorem forVariable_of_asks {call : Call} (hq : q.Named) (h : q.asks id call = true) :
    call.ForVariable id.envPath := by
  have hstored {p : String} {v : Bytes} (hw : (p, v) ∈ Registry.variableCells id q.update) :
      ∃ x w, Path.IsRelative x ∧ p = id.envPath ++ "/" ++ x ∧ v = Text.Utf8.encode w := by
    obtain ⟨o, ho, heq⟩ := List.mem_map.1 hw
    cases heq
    exact ⟨o.1, o.2, hq.1 o.1 (List.mem_map_of_mem ho), rfl, rfl⟩
  cases call with
  | create p v =>
    obtain ⟨x, w, hx, rfl, rfl⟩ := hstored (of_decide_eq_true h)
    exact .create hx w
  | set p v =>
    obtain ⟨x, w, hx, rfl, rfl⟩ := hstored (of_decide_eq_true h)
    exact .set hx w
  | delete p =>
    obtain ⟨x, hx, rfl⟩ := List.mem_map.1 (of_decide_eq_true h)
    exact .delete (hq.2 x hx)
  | get p => cases h
  | visit p enter => cases h

/-- No request asks for a write of the root. -/
theorem not_asks_root (q : EnvRequest) (v : Bytes) : q.asks id (.create id.envPath v) = false := by
  refine decide_eq_false fun hw => ?_
  obtain ⟨o, _, heq⟩ := List.mem_map.1 hw
  have hpath : id.envPath ++ "/" ++ o.1 = id.envPath := congrArg Prod.fst heq
  have hlength := congrArg (fun p => p.toList.length) hpath
  have hslash : "/".toList.length = 1 := rfl
  simp only [String.toList_append, List.length_append] at hlength
  omega

/-! ## The change that a request makes -/

/-- The change that a request makes of an environment. -/
def change? (id : ReleaseId) : EnvRequest → Option DirectoryChange
  | .read => none
  | .new vars => some (.newEnv id vars)
  | .save change revision => some (.saveEnv id change revision)

variable {c : DirectoryChange}

theorem action_of_change (h : q.change? id = some c) :
    q.action id = c.step.action .standard := by
  cases q <;> cases h <;> rfl

theorem root_of_change (h : q.change? id = some c) :
    c.root .standard = .ok (id.envPath, []) := by
  cases q <;> cases h <;> rfl

theorem writes_of_change (h : q.change? id = some c) :
    c.writes .standard = .ok (Registry.variableCells id q.update) := by
  cases q with
  | read => cases h
  | new vars =>
    cases h
    exact Registry.cells_standard id vars.toList
  | save change revision =>
    cases h
    exact Registry.cells_standard id change.update.toList

theorem deletes_of_change (h : q.change? id = some c) :
    c.deletes .standard = .ok (q.deletedPaths id) := by
  cases q with
  | read => cases h
  | new vars =>
    cases h
    rfl
  | save change revision =>
    cases h
    exact Registry.paths_standard id change.delete.keys

/-! ## The batch and what comes before and after -/

variable {s s₁ : Service} {path : String} {b : Batch}

/-- When the batch is applied only pruning is left to do, and reading. -/
theorem keeps_finish (h : q.change? id = some c) (b : Batch) (n : ChangeSummary) :
    (c.finish id.envPath b n).Keeps (Call.Prunes id.envPath) (fun _ => True) fun _ => True := by
  cases q with
  | read => cases h
  | new vars =>
    cases h
    have hreads := DirectoryChange.reads_finish id vars id.envPath b n
    exact hreads.mono (fun _ hc => Or.inl hc) (fun _ h => h) fun _ h => h
  | save change revision =>
    cases h
    have hprune := Registry.unconditional_pruneGroups id.envPath b.deletes
    refine (hprune.mono (fun _ hc => hc) (fun _ h => h) fun _ _ => trivial).bind fun _ _ => ?_
    exact Action.keeps_pure trivial

/-- The root of what is prepared is that of the environment. -/
theorem path_of_prepared (h : q.change? id = some c)
    (hprepared : c.Prepared .standard s path b s₁) : path = id.envPath := by
  obtain ⟨value, hroot⟩ := hprepared.exists_root
  have hsame := Except.ok.inj (hroot.symm.trans (root_of_change h))
  exact congrArg Prod.fst hsame

/-- A batch stores all that is asked for, and deletes what is there of it. -/
theorem batch_of_prepared (h : q.change? id = some c)
    (hprepared : c.Prepared .standard s path b s₁) :
    (∀ w, w ∈ Registry.variableCells id q.update ↔ w ∈ b.creates ∨ w ∈ b.updates) ∧
      (∀ p ∈ b.deletes, p ∈ q.deletedPaths id) ∧
      ∀ p ∈ q.deletedPaths id, p ∈ b.deletes ∨ s.Lacks p := by
  have hwrites := writes_of_change h
  have hdeletes := deletes_of_change h
  cases hprepared with
  | created new root writes_eq valid missing tree =>
    obtain rfl := Except.ok.inj (writes_eq.symm.trans hwrites)
    refine ⟨fun w => (or_iff_left List.not_mem_nil).symm, fun p hp => (nomatch hp), ?_⟩
    intro p hp
    cases q with
    | read => cases h
    | new vars => cases hp
    | save change revision =>
      cases h
      cases new
  | planned old root writes_eq deletes_eq revision tree split kept =>
    obtain rfl := Except.ok.inj (writes_eq.symm.trans hwrites)
    obtain rfl := Except.ok.inj (deletes_eq.symm.trans hdeletes)
    exact ⟨fun w => split.mem_iff, fun p hp => kept.mem hp, fun p hp => kept.mem_or_lacks hp⟩

theorem asks_of_mem_calls (h : q.change? id = some c)
    (hprepared : c.Prepared .standard s path b s₁) {call : Call} (hcall : call ∈ b.calls) :
    q.asks id call = true := by
  obtain ⟨hstored, hdeleted, _⟩ := batch_of_prepared h hprepared
  rcases Batch.mem_calls.1 hcall with ⟨w, hw, rfl⟩ | ⟨w, hw, rfl⟩ | ⟨p, hp, rfl⟩
  · exact decide_eq_true ((hstored w).2 (Or.inl hw))
  · exact decide_eq_true ((hstored w).2 (Or.inr hw))
  · exact decide_eq_true (hdeleted p hp)

/-- What a request asks for is written after its batch was found. -/
theorem writes_of_trace (h : q.change? id = some c) {tail : List (Call × Option TreeError)}
    (htrace : s.trace (c.step.action .standard).run =
      s.trace (c.prepare .standard).run ++ tail) :
    q.writes id s = (Call.effective tail).filter (q.asks id) := by
  have hnone : (s.effects (c.prepare .standard).run).filter (q.asks id) = [] := by
    rw [List.filter_eq_nil_iff]
    intro call hcall
    obtain ⟨hallowed, hwrite⟩ :=
      Service.allowed_of_mem_effects (DirectoryChange.keeps_prepare (root_of_change h)) hcall
    rcases hallowed with hread | rfl
    · rw [hread.not_isWrite] at hwrite
      cases hwrite
    · rw [not_asks_root]
      exact Bool.false_ne_true
  rw [Service.effects] at hnone
  rw [writes, Service.effects, action_of_change h, htrace, Call.effective_append,
    List.filter_append, hnone, List.nil_append]

/-- Of a batch that is applied to a write that fails, the writes before it took effect. -/
theorem filter_done (h : q.change? id = some c) (hprepared : c.Prepared .standard s path b s₁)
    {done rest : List Call} (hdone : b.calls = done ++ rest) :
    (Call.effective (done.map (·, none))).filter (q.asks id) = done := by
  have hmem {call : Call} (hcall : call ∈ done) : call ∈ b.calls := by
    rw [hdone]
    exact List.mem_append_left _ hcall
  rw [Call.effective_map fun call hcall => Batch.isWrite_of_mem_calls (hmem hcall),
    List.filter_eq_self]
  exact fun call hcall => asks_of_mem_calls h hprepared (hmem hcall)

end EnvRequest

end Coordination
