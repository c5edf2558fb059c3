import Coordination.Proofs.Registry.Batch
import Coordination.Proofs.Registry.Checks
import Coordination.Proofs.Tree.Trace

/-!
# Batches of which a call fails

The writes of a batch follow one another until one fails. Whatever fails, and why, the writes
before the failing one took effect, nothing else did, and no write was tried after it. A plan
reads what it tells apart: what it sets or deletes was there, and what it creates or drops was
missing, unless a planned fault answered for the tree that it was.
-/

namespace Coordination

theorem Call.IsRead.not_isWrite {c : Call} (h : c.IsRead) : c.isWrite = false := by
  cases c with
  | get p => rfl
  | visit p enter => rfl
  | create p v => exact h.elim
  | set p v => exact h.elim
  | delete p => exact h.elim

namespace Tree

theorem Makes.eq_of_nil {t t' : Tree} (h : Makes t [] t') : t' = t := by
  cases h
  rfl

/-- A call that fails leaves the tree as it is. -/
theorem respond_of_error {t : Tree} {c : Call} {e : TreeError} (h : (t.respond c).1 = .error e) :
    (t.respond c).2 = t := by
  have houtcome {α : Type} {x : Except TreeError (Written α)}
      (h : (Written.outcome t x).1 = .error e) : (Written.outcome t x).2.1 = t := by
    cases x with
    | error e' => rfl
    | ok w => cases h
  cases c with
  | get p => rfl
  | visit p enter => rfl
  | create p v => exact houtcome h
  | set p v => exact houtcome h
  | delete p => exact houtcome h

/-! ## Writes that succeed -/

theorem exists_of_outcome_eq_ok {α : Type} {t t' : Tree} {x : Except TreeError (Written α)} {a : α}
    (h : ((Written.outcome t x).1, (Written.outcome t x).2.1) = (.ok a, t')) :
    ∃ w, x = .ok w ∧ t' = w.tree := by
  cases x with
  | error e => cases h
  | ok w =>
    cases h
    exact ⟨w, rfl, rfl⟩

variable {t t' : Tree} {p : String}

theorem created_of_respond {v : Bytes} {n : Node} (h : t.respond (.create p v) = (.ok n, t')) :
    Path.isValid p = true ∧ ¬ t.Has p ∧ t' = t.created p v := by
  obtain ⟨w, hw, rfl⟩ := exists_of_outcome_eq_ok h
  exact created_of_create hw

theorem written_of_respond {v : Bytes} {n : Node} (h : t.respond (.set p v) = (.ok n, t')) :
    ∃ c, t.cells.get? p = some c ∧ t' = t.written p c v := by
  obtain ⟨w, hw, rfl⟩ := exists_of_outcome_eq_ok h
  exact written_of_set hw

theorem removed_of_respond {u : Unit} (h : t.respond (.delete p) = (.ok u, t')) :
    ∃ parent, Path.parent? p = some parent ∧ t.Has p ∧ t.childPaths p = [] ∧
      t' = t.removed p parent := by
  obtain ⟨w, hw, rfl⟩ := exists_of_outcome_eq_ok h
  exact removed_of_delete hw

end Tree

namespace Service

variable {α β : Type} {s s' : Service}

theorem tree_of_answer_error {c : Call} {e : TreeError} (h : (s.answer c).1 = .error e) :
    (s.answer c).2.tree = s.tree := by
  rcases s.answer_cases c with ⟨_, htree⟩ | ⟨hreply, htree⟩
  · exact htree
  · rw [htree]
    exact Tree.respond_of_error (hreply.symm.trans h)

/-! ## What planned faults can answer -/

/-- A fault is planned that lets such a call on the path fail with the error. -/
def Plans (s : Service) (kind : CallKind) (path : String) (e : TreeError) : Prop :=
  ∃ f ∈ s.faults, f.kind = kind ∧ f.path = path ∧ f.error = e

/-- There is no node at the path, or a planned fault says so. -/
def Lacks (s : Service) (path : String) : Prop :=
  ¬ s.tree.Has path ∨ ∃ missing, s.Plans .get path (.notFound missing)

end Service

namespace Fault

variable {kind : CallKind} {path : String} {faults : List Fault}

theorem exists_of_consume_eq_some {e : TreeError} (h : (consume kind path faults).1 = some e) :
    ∃ f ∈ faults, f.kind = kind ∧ f.path = path ∧ f.error = e := by
  induction faults with
  | nil => cases h
  | cons f rest ih =>
    rw [consume] at h
    by_cases hf : f.kind = kind ∧ f.path = path
    · rw [if_pos hf] at h
      split at h
      · exact ⟨f, List.mem_cons_self, hf.1, hf.2, Option.some.inj h⟩
      · cases h
    · rw [if_neg hf] at h
      obtain ⟨g, hg, hgood⟩ := ih h
      exact ⟨g, List.mem_cons_of_mem _ hg, hgood⟩

/-- What remains of faults was planned, for the same calls and with the same errors. -/
theorem exists_of_mem_consume {f : Fault} (h : f ∈ (consume kind path faults).2) :
    ∃ g ∈ faults, g.kind = f.kind ∧ g.path = f.path ∧ g.error = f.error := by
  induction faults with
  | nil => cases h
  | cons g rest ih =>
    rw [consume] at h
    by_cases hg : g.kind = kind ∧ g.path = path
    · rw [if_pos hg] at h
      split at h
      · exact ⟨f, List.mem_cons_of_mem _ h, rfl, rfl, rfl⟩
      · rcases List.mem_cons.1 h with rfl | h
        · exact ⟨g, List.mem_cons_self, rfl, rfl, rfl⟩
        · exact ⟨f, List.mem_cons_of_mem _ h, rfl, rfl, rfl⟩
    · rw [if_neg hg] at h
      rcases List.mem_cons.1 h with rfl | h
      · exact ⟨f, List.mem_cons_self, rfl, rfl, rfl⟩
      · obtain ⟨g', hg', hsame⟩ := ih h
        exact ⟨g', List.mem_cons_of_mem _ hg', hsame⟩

end Fault

namespace Service

variable {α β : Type} {s s' s'' : Service}

/-- A service that goes on without a write: its tree is the same, and no fault is new. -/
structure Resumes (s s' : Service) : Prop where
  tree : s'.tree = s.tree
  faults : ∀ kind path e, s'.Plans kind path e → s.Plans kind path e

namespace Resumes

theorem refl (s : Service) : Resumes s s := ⟨rfl, fun _ _ _ h => h⟩

theorem trans (h : Resumes s s') (h' : Resumes s' s'') : Resumes s s'' :=
  ⟨h'.tree.trans h.tree, fun kind path e hplans => h.faults kind path e (h'.faults _ _ _ hplans)⟩

theorem lacks (h : Resumes s s') {p : String} (hlacks : s'.Lacks p) : s.Lacks p := by
  rcases hlacks with hnot | ⟨missing, hplans⟩
  · left
    rwa [h.tree] at hnot
  · right
    exact ⟨missing, h.faults _ _ _ hplans⟩

end Resumes

theorem faults_answer (s : Service) (c : Call) :
    (s.answer c).2.faults = (Fault.consume c.kind c.path s.faults).2 := by
  rw [answer, accept]
  rcases Fault.consume c.kind c.path s.faults with ⟨_ | e, rest⟩ <;> rfl

theorem resumes_answer {c : Call} (hc : c.IsRead) (s : Service) : Resumes s (s.answer c).2 := by
  refine ⟨hc.tree s, fun kind path e hplans => ?_⟩
  obtain ⟨f, hf, hkind, hpath, he⟩ := hplans
  rw [faults_answer] at hf
  obtain ⟨g, hg, hsame⟩ := Fault.exists_of_mem_consume hf
  exact ⟨g, hg, hsame.1.trans hkind, hsame.2.1.trans hpath, hsame.2.2.trans he⟩

/-- After an action that only reads the service goes on without a write. -/
theorem resumes_of_reads {x : Action α} {good : α → Prop} {bad : RegistryError → Prop}
    (hx : x.Keeps Call.IsRead good bad) {r : Except RegistryError α}
    (h : s.run x.run = (r, s')) : Resumes s s' := by
  have hkeeps : Resumes s (s.run x.run).2 :=
    Program.Keeps.run_invariant (I := Resumes s) hx
      (fun c s₁ hc h => h.trans (resumes_answer hc s₁)) (.refl s)
  rwa [h] at hkeeps

/-- Only a tree without the node, or a planned fault, answers that it is missing. -/
theorem lacks_of_answer_get {p missing : String}
    (h : (s.answer (.get p)).1 = .error (.notFound missing)) : s.Lacks p := by
  rcases hconsume : Fault.consume .get p s.faults with ⟨_ | e, rest⟩
  · left
    obtain ⟨events, hanswer⟩ := answer_of_consume_none (c := .get p) hconsume
    rw [hanswer] at h
    intro hhas
    obtain ⟨c, hc⟩ := Tree.has_iff_get?.1 hhas
    have hget : s.tree.get p = .error (.notFound missing) := h
    rw [Tree.get, Tree.cell_of_get? hc] at hget
    cases hpath : Tree.checkPath p with
    | ok u =>
      rw [hpath] at hget
      cases hget
    | error e =>
      rw [hpath] at hget
      cases hget
      rw [Tree.checkPath] at hpath
      split at hpath <;> cases hpath
  · right
    have hanswer := answer_of_consume_some (c := .get p) hconsume
    rw [hanswer] at h
    cases h
    refine ⟨missing, Fault.exists_of_consume_eq_some ?_⟩
    rw [hconsume]

/-- What is found to be there is there, and what is not found is lacking. -/
theorem resumes_of_run_present {p : String} {there : Bool}
    (h : s.run (Action.present p).run = (.ok there, s')) :
    Resumes s s' ∧ (there = true → s.tree.Has p) ∧ (there = false → s.Lacks p) := by
  obtain ⟨reply, s₁, hattempt, h⟩ := exists_of_run_bind_eq_ok h
  obtain ⟨hreply, rfl⟩ := eq_of_run_attempt hattempt
  have hresumes := resumes_answer (c := .get p) trivial s
  cases reply with
  | ok n =>
    cases h
    obtain ⟨c, hc, _⟩ :=
      Tree.exists_get?_of_get (congrArg Prod.fst (respond_of_answer hreply.symm))
    exact ⟨hresumes, fun _ => Tree.has_iff_get?.2 ⟨c, hc⟩, fun hfalse => nomatch hfalse⟩
  | error e =>
    cases e with
    | notFound missing =>
      cases h
      have hlacks := lacks_of_answer_get hreply.symm
      exact ⟨hresumes, fun htrue => (nomatch htrue), fun _ => hlacks⟩
    | _ => cases h

/-! ## Plans -/

/-- The writes are told apart by what is there, each kind in its order: those to nodes that
are missing, and those to nodes that are there. -/
inductive Splits (s : Service) : List (String × Bytes) → List (String × Bytes) →
    List (String × Bytes) → Prop where
  | nil : Splits s [] [] []
  | missing {w : String × Bytes} {writes creates updates : List (String × Bytes)}
    (lacks : s.Lacks w.1) (rest : Splits s writes creates updates) :
    Splits s (w :: writes) (w :: creates) updates
  | there {w : String × Bytes} {writes creates updates : List (String × Bytes)}
    (has : s.tree.Has w.1) (rest : Splits s writes creates updates) :
    Splits s (w :: writes) creates (w :: updates)

/-- Of the paths those are kept, in their order, whose nodes are there. -/
inductive Retains (s : Service) : List String → List String → Prop where
  | nil : Retains s [] []
  | missing {path : String} {paths kept : List String} (lacks : s.Lacks path)
    (rest : Retains s paths kept) : Retains s (path :: paths) kept
  | there {path : String} {paths kept : List String} (has : s.tree.Has path)
    (rest : Retains s paths kept) : Retains s (path :: paths) (path :: kept)

theorem Resumes.splits (h : Resumes s s') {writes creates updates : List (String × Bytes)}
    (hsplits : s'.Splits writes creates updates) : s.Splits writes creates updates := by
  induction hsplits with
  | nil => exact .nil
  | missing lacks _ ih => exact .missing (h.lacks lacks) ih
  | there has _ ih => exact .there (h.tree ▸ has) ih

theorem Resumes.retains (h : Resumes s s') {paths kept : List String}
    (hretains : s'.Retains paths kept) : s.Retains paths kept := by
  induction hretains with
  | nil => exact .nil
  | missing lacks _ ih => exact .missing (h.lacks lacks) ih
  | there has _ ih => exact .there (h.tree ▸ has) ih

theorem splits_of_run_planWrites {writes : List (String × Bytes)}
    {split : List (String × Bytes) × List (String × Bytes)}
    (h : s.run (Batch.planWrites writes).run = (.ok split, s')) :
    Resumes s s' ∧ s.Splits writes split.1 split.2 := by
  induction writes generalizing s s' split with
  | nil =>
    cases h
    exact ⟨.refl s, .nil⟩
  | cons w rest ih =>
    obtain ⟨there, s₁, hpresent, h⟩ := exists_of_run_bind_eq_ok h
    obtain ⟨tail, s₂, hrest, h⟩ := exists_of_run_bind_eq_ok h
    obtain ⟨hresumes, hhas, hlacks⟩ := resumes_of_run_present hpresent
    obtain ⟨hresumes', hsplits⟩ := ih hrest
    have htail := hresumes.splits hsplits
    cases h
    refine ⟨hresumes.trans hresumes', ?_⟩
    cases there with
    | true => exact .there (hhas rfl) htail
    | false => exact .missing (hlacks rfl) htail

theorem retains_of_run_planDeletes {paths kept : List String}
    (h : s.run (Batch.planDeletes paths).run = (.ok kept, s')) :
    Resumes s s' ∧ s.Retains paths kept := by
  induction paths generalizing s s' kept with
  | nil =>
    cases h
    exact ⟨.refl s, .nil⟩
  | cons p rest ih =>
    obtain ⟨there, s₁, hpresent, h⟩ := exists_of_run_bind_eq_ok h
    obtain ⟨tail, s₂, hrest, h⟩ := exists_of_run_bind_eq_ok h
    obtain ⟨hresumes, hhas, hlacks⟩ := resumes_of_run_present hpresent
    obtain ⟨hresumes', hretains⟩ := ih hrest
    have htail := hresumes.retains hretains
    cases h
    refine ⟨hresumes.trans hresumes', ?_⟩
    cases there with
    | true => exact .there (hhas rfl) htail
    | false => exact .missing (hlacks rfl) htail

/-- A plan tells the writes apart, keeps the deletions of what is there, and writes nothing. -/
theorem splits_of_run_plan {writes : List (String × Bytes)} {deletes : List String} {b : Batch}
    (h : s.run (Batch.plan writes deletes).run = (.ok b, s')) :
    Resumes s s' ∧ s.Splits writes b.creates b.updates ∧ s.Retains deletes b.deletes := by
  obtain ⟨split, s₁, hwrites, h⟩ := exists_of_run_bind_eq_ok h
  obtain ⟨kept, s₂, hdeletes, h⟩ := exists_of_run_bind_eq_ok h
  obtain ⟨hresumes, hsplits⟩ := splits_of_run_planWrites hwrites
  obtain ⟨hresumes', hretains⟩ := retains_of_run_planDeletes hdeletes
  cases h
  exact ⟨hresumes.trans hresumes', hsplits, hresumes.retains hretains⟩

section

variable {writes creates updates : List (String × Bytes)} {paths kept : List String}

theorem Splits.mem_iff (h : s.Splits writes creates updates) {w : String × Bytes} :
    w ∈ writes ↔ w ∈ creates ∨ w ∈ updates := by
  induction h with
  | nil => simp
  | missing lacks rest ih => rw [List.mem_cons, List.mem_cons, ih, or_assoc]
  | there has rest ih =>
    rw [List.mem_cons, List.mem_cons, ih]
    exact or_left_comm

theorem Retains.mem {p : String} (h : s.Retains paths kept) (hp : p ∈ kept) : p ∈ paths := by
  induction h with
  | nil => exact hp
  | missing lacks rest ih => exact List.mem_cons_of_mem _ (ih hp)
  | there has rest ih =>
    rcases List.mem_cons.1 hp with rfl | hp
    · exact List.mem_cons_self
    · exact List.mem_cons_of_mem _ (ih hp)

theorem Retains.mem_or_lacks {p : String} (h : s.Retains paths kept) (hp : p ∈ paths) :
    p ∈ kept ∨ s.Lacks p := by
  induction h with
  | nil => cases hp
  | missing lacks rest ih =>
    rcases List.mem_cons.1 hp with rfl | hp
    · exact Or.inr lacks
    · exact ih hp
  | there has rest ih =>
    rcases List.mem_cons.1 hp with rfl | hp
    · exact Or.inl List.mem_cons_self
    · exact (ih hp).imp_left (List.mem_cons_of_mem _)

/-- Without faults only a node that is not there is lacking. -/
theorem Lacks.not_has {p : String} (h : s.Lacks p) (hs : s.faults = []) : ¬ s.tree.Has p := by
  rcases h with hnot | ⟨missing, f, hf, _⟩
  · exact hnot
  · rw [hs] at hf
    cases hf

end

end Service

/-! ## Applying -/

namespace Batch

theorem mem_calls {b : Batch} {c : Call} : c ∈ b.calls ↔
    (∃ w ∈ b.creates, c = .create w.1 w.2) ∨ (∃ w ∈ b.updates, c = .set w.1 w.2) ∨
      ∃ p ∈ b.deletes, c = .delete p := by
  rw [calls, List.mem_append, List.mem_append, List.mem_map, List.mem_map, List.mem_map, or_assoc]
  simp only [eq_comm]

theorem isWrite_of_mem_calls {b : Batch} {c : Call} (h : c ∈ b.calls) :
    c.isWrite = true := by
  rcases mem_calls.1 h with ⟨w, _, rfl⟩ | ⟨w, _, rfl⟩ | ⟨p, _, rfl⟩ <;> rfl

/-- A batch deletes what it is planned to delete. -/
theorem delete_mem_calls {b : Batch} {p : String} : .delete p ∈ b.calls ↔ p ∈ b.deletes := by
  rw [mem_calls]
  constructor
  · rintro (⟨w, _, heq⟩ | ⟨w, _, heq⟩ | ⟨q, hq, heq⟩)
    · cases heq
    · cases heq
    · cases heq
      exact hq
  · intro hp
    exact Or.inr (Or.inr ⟨p, hp, rfl⟩)

/-- The error of a write that fails after others were applied. -/
def failure (applied : List String) (c : Call) (e : TreeError) : RegistryError :=
  if applied = [] then .tree e else .partiallyApplied applied c.path e

/-- What becomes of a batch that a service applies after the writes at the paths `lead`: its
writes succeed one after another to the last, or to one that fails, after which none is
tried. -/
inductive Outcome (b : Batch) (lead : List String) (s : Service) :
    Except RegistryError ChangeSummary → Service → List (Call × Option TreeError) → Prop where
  | all {s' : Service} (makes : s.tree.Makes b.calls s'.tree) :
    Outcome b lead s (.ok b.summary) s' (b.calls.map (·, none))
  | some {s' : Service} {done rest : List Call} {c : Call} {e : TreeError}
    (calls : b.calls = done ++ c :: rest) (applied : lead ++ done.map Call.path ≠ [])
    (makes : s.tree.Makes done s'.tree) :
    Outcome b lead s (.error (.partiallyApplied (lead ++ done.map Call.path) c.path e)) s'
      (done.map (·, none) ++ [(c, some e)])
  | none {s' : Service} {rest : List Call} {c : Call} {e : TreeError}
    (calls : b.calls = c :: rest) (first : lead = []) (unchanged : s'.tree = s.tree) :
    Outcome b lead s (.error (.tree e)) s' [(c, some e)]

/-- A batch that is applied to its end counts its writes. -/
theorem Outcome.eq_summary {b : Batch} {lead : List String} {s s' : Service}
    {reply : Except RegistryError ChangeSummary} {tried : List (Call × Option TreeError)}
    (h : b.Outcome lead s reply s' tried) {n : ChangeSummary} (hn : reply = .ok n) :
    n = b.summary := by
  cases h with
  | all makes => exact (Except.ok.inj hn).symm
  | some calls applied makes => cases hn
  | none calls first unchanged => cases hn

end Batch

namespace Service

variable {s s' : Service}

theorem run_applyCalls_cons_ok {c : Call} {reply : c.Reply} (h : (s.answer c).1 = .ok reply)
    (applied : List String) (rest : List Call) :
    s.run (Batch.applyCalls applied (c :: rest)).run =
      (s.answer c).2.run (Batch.applyCalls (applied ++ [c.path]) rest).run ∧
    s.trace (Batch.applyCalls applied (c :: rest)).run =
      (c, none) :: (s.answer c).2.trace (Batch.applyCalls (applied ++ [c.path]) rest).run := by
  have hattempt : s.run (Action.attempt c).run = (.ok (.ok reply), (s.answer c).2) := by
    rw [← h]
    rfl
  have htrace : s.trace (Action.attempt c).run = [(c, none)] := by
    show [(c, Call.failure? (s.answer c).1)] = _
    rw [h]
    rfl
  rw [Batch.applyCalls]
  constructor
  · exact Action.run_bind_ok hattempt
  · rw [trace, Action.trace_bind_ok hattempt]
    exact congrArg (· ++ _) htrace

theorem run_applyCalls_cons_error {c : Call} {e : TreeError} (h : (s.answer c).1 = .error e)
    (applied : List String) (rest : List Call) :
    s.run (Batch.applyCalls applied (c :: rest)).run =
      (.error (Batch.failure applied c e), (s.answer c).2) ∧
    s.trace (Batch.applyCalls applied (c :: rest)).run = [(c, some e)] := by
  have hattempt : s.run (Action.attempt c).run = (.ok (.error e), (s.answer c).2) := by
    rw [← h]
    rfl
  have htrace : s.trace (Action.attempt c).run = [(c, some e)] := by
    show [(c, Call.failure? (s.answer c).1)] = _
    rw [h]
    rfl
  rw [Batch.applyCalls, Batch.failure]
  constructor
  · refine (Action.run_bind_ok hattempt).trans ?_
    by_cases hnil : applied = []
    · simp only [if_pos hnil]
      rfl
    · simp only [if_neg hnil]
      rfl
  · rw [trace, Action.trace_bind_ok hattempt]
    refine (congrArg (· ++ _) htrace).trans ?_
    by_cases hnil : applied = []
    · simp only [if_pos hnil]
      rfl
    · simp only [if_neg hnil]
      rfl

/-- Calls are made to the last or until one fails. -/
theorem run_applyCalls (s : Service) (applied : List String) (calls : List Call) :
    (∃ s', s.run (Batch.applyCalls applied calls).run = (.ok (), s') ∧
      s.tree.Makes calls s'.tree ∧
      s.trace (Batch.applyCalls applied calls).run = calls.map (·, none)) ∨
    ∃ done c rest e s', calls = done ++ c :: rest ∧
      s.run (Batch.applyCalls applied calls).run =
        (.error (Batch.failure (applied ++ done.map Call.path) c e), s') ∧
      s.tree.Makes done s'.tree ∧
      s.trace (Batch.applyCalls applied calls).run = done.map (·, none) ++ [(c, some e)] := by
  induction calls generalizing s applied with
  | nil => exact Or.inl ⟨s, rfl, .nil s.tree, rfl⟩
  | cons c rest ih =>
    cases hanswer : (s.answer c).1 with
    | error e =>
      obtain ⟨hrun, htrace⟩ := run_applyCalls_cons_error hanswer applied rest
      have hmakes : s.tree.Makes [] (s.answer c).2.tree := by
        rw [tree_of_answer_error hanswer]
        exact .nil s.tree
      refine Or.inr ⟨[], c, rest, e, (s.answer c).2, rfl, ?_, hmakes, htrace⟩
      rw [List.map_nil, List.append_nil]
      exact hrun
    | ok reply =>
      obtain ⟨hrun, htrace⟩ := run_applyCalls_cons_ok hanswer applied rest
      have hhead := respond_of_answer hanswer
      rw [hrun, htrace]
      rcases ih (s.answer c).2 (applied ++ [c.path]) with
        ⟨s', hall, hmakes, hcalls⟩ | ⟨done, c', rest', e, s', heq, hstop, hmakes, hcalls⟩
      · refine Or.inl ⟨s', hall, .cons hhead hmakes, ?_⟩
        rw [hcalls]
        rfl
      · refine Or.inr ⟨c :: done, c', rest', e, s', ?_, ?_, .cons hhead hmakes, ?_⟩
        · rw [heq]
          rfl
        · rw [hstop, List.append_assoc]
          rfl
        · rw [hcalls]
          rfl

/-- Whatever fails, applying a batch has one of the three outcomes. -/
theorem outcome_apply (s : Service) (b : Batch) (lead : List String) :
    b.Outcome lead s (s.run (b.apply lead).run).1 (s.run (b.apply lead).run).2
      (s.trace (b.apply lead).run) := by
  rcases s.run_applyCalls lead b.calls with
    ⟨s', hrun, hmakes, htrace⟩ | ⟨done, c, rest, e, s', hcalls, hrun, hmakes, htrace⟩
  · have happly : s.run (b.apply lead).run = (.ok b.summary, s') := by
      rw [Batch.apply]
      exact (Action.run_bind_ok hrun).trans rfl
    have htrace' : s.trace (b.apply lead).run = b.calls.map (·, none) := by
      rw [Batch.apply, trace, Action.trace_bind_ok hrun, ← htrace]
      exact List.append_nil _
    rw [happly, htrace']
    exact .all hmakes
  · have happly : s.run (b.apply lead).run =
        (.error (Batch.failure (lead ++ done.map Call.path) c e), s') := by
      rw [Batch.apply]
      exact Action.run_bind_error hrun
    have htrace' : s.trace (b.apply lead).run = done.map (·, none) ++ [(c, some e)] := by
      rw [Batch.apply, trace, Action.trace_bind_error hrun, ← htrace]
      rfl
    rw [happly, htrace', Batch.failure]
    by_cases hnil : lead ++ done.map Call.path = []
    · obtain ⟨hlead, hdone⟩ := List.append_eq_nil_iff.1 hnil
      obtain rfl := List.map_eq_nil_iff.1 hdone
      rw [if_pos hnil]
      exact .none hcalls hlead hmakes.eq_of_nil
    · rw [if_neg hnil]
      exact .some hcalls hnil hmakes

end Service

end Coordination
