import Coordination.Proofs.Environment.Pruning
import Coordination.Proofs.Registry.Outcome

/-!
# The writes that a record accounts for

A log lists the writes below the root of an environment that took effect. The variables that
are recorded are accounted for by it: each has the value of the last write of its name, and no
deletion of it came later. In turn, what was written last and not deleted since is recorded,
unless it was the empty value and pruning took the variable away with a node below it.
-/

namespace Coordination

/-! ## Last writes -/

/-- The path and the value that a call stores. -/
def Call.stored? : Call → Option (String × Bytes)
  | .create p v | .set p v => some (p, v)
  | .get _ | .visit .. | .delete _ => none

theorem Call.path_of_stored? {c : Call} {p : String} {v : Bytes} (h : c.stored? = some (p, v)) :
    c.path = p := by
  cases c <;> cases h <;> rfl

/-- The last call for a path in a log stored the value; the calls after it are for others. -/
def LastWritten (log : List Call) (p : String) (v : Bytes) (after : List Call) : Prop :=
  ∃ before c, log = before ++ c :: after ∧ c.stored? = some (p, v) ∧ ∀ c ∈ after, c.path ≠ p

variable {log rest after : List Call} {p : String} {v : Bytes}

theorem LastWritten.exists_call (h : LastWritten log p v after) : ∃ c ∈ log, c.path = p := by
  obtain ⟨before, c, rfl, hc, _⟩ := h
  exact ⟨c, List.mem_append_right _ List.mem_cons_self, Call.path_of_stored? hc⟩

/-- If a single call is for a path, and it stored a value, this was the last write. -/
theorem lastWritten_of_once
    (h : (log.filter fun c => c.path = p).map Call.stored? = [some (p, v)]) :
    ∃ after, LastWritten log p v after := by
  obtain ⟨c, hfilter, hc⟩ := List.map_eq_singleton_iff.1 h
  obtain ⟨before, after, rfl, _, _, hnil⟩ := List.filter_eq_cons_iff.1 hfilter
  refine ⟨after, before, c, rfl, hc, fun c' hc' hpath => ?_⟩
  exact List.filter_eq_nil_iff.1 hnil c' hc' (decide_eq_true hpath)

/-- If all calls for a path stored the same value, and there are some, it was written last. -/
theorem lastWritten_of_same {c : Call} (hc : c ∈ log) (hpath : c.path = p)
    (hsame : ∀ c ∈ log, c.path = p → c.stored? = some (p, v)) :
    ∃ after, LastWritten log p v after := by
  induction log generalizing c with
  | nil => cases hc
  | cons head rest ih =>
    obtain ⟨hhead, hrest⟩ := List.forall_mem_cons.1 hsame
    by_cases hlater : ∃ c ∈ rest, c.path = p
    · obtain ⟨c, hc, hpath⟩ := hlater
      obtain ⟨after, before, w, rfl, hw, hafter⟩ := ih hc hpath hrest
      exact ⟨after, head :: before, w, rfl, hw, hafter⟩
    · rcases List.mem_cons.1 hc with rfl | hc
      · exact ⟨rest, [], c, rfl, hhead hpath, fun c' hc' hpath' => hlater ⟨c', hc', hpath'⟩⟩
      · exact absurd ⟨c, hc, hpath⟩ hlater

/-- The last write of a longer log is in what is new, or it was there before. -/
theorem lastWritten_append : LastWritten (log ++ rest) p v after ↔
    LastWritten rest p v after ∨
      ∃ a, after = a ++ rest ∧ LastWritten log p v a ∧ ∀ c ∈ rest, c.path ≠ p := by
  constructor
  · rintro ⟨before, c, heq, hc, hafter⟩
    rcases List.append_eq_append_iff.1 heq with ⟨b, _, hrest⟩ | ⟨b, hlog, htail⟩
    · exact Or.inl ⟨b, c, hrest, hc, hafter⟩
    · cases b with
      | nil => exact Or.inl ⟨[], c, htail.symm, hc, hafter⟩
      | cons head a =>
        obtain ⟨rfl, rfl⟩ := List.cons.inj htail
        obtain ⟨ha, hrest⟩ := List.forall_mem_append.1 hafter
        exact Or.inr ⟨a, rfl, ⟨before, c, hlog, hc, ha⟩, hrest⟩
  · rintro (⟨before, c, rfl, hc, hafter⟩ | ⟨a, rfl, ⟨before, c, rfl, hc, hafter⟩, hrest⟩)
    · exact ⟨log ++ before, c, (List.append_assoc _ _ _).symm, hc, hafter⟩
    · refine ⟨before, c, List.append_assoc _ _ _, hc, ?_⟩
      exact List.forall_mem_append.2 ⟨hafter, hrest⟩

theorem lastWritten_singleton {c : Call} :
    LastWritten [c] p v after ↔ after = [] ∧ c.stored? = some (p, v) := by
  constructor
  · rintro ⟨before, w, heq, hw, _⟩
    rcases List.singleton_eq_append_iff.1 heq with ⟨_, hcons⟩ | ⟨_, hnil⟩
    · obtain ⟨rfl, rfl⟩ := List.cons.inj hcons
      exact ⟨rfl, hw⟩
    · cases hnil
  · rintro ⟨rfl, hc⟩
    exact ⟨[], c, rfl, hc, fun _ h => nomatch h⟩

/-- Calls that store nothing are no last writes. -/
theorem not_lastWritten {calls : List Call} (h : ∀ c ∈ calls, c.stored? = none) :
    ¬ LastWritten calls p v after := by
  rintro ⟨before, c, rfl, hc, _⟩
  rw [h c (List.mem_append_right _ List.mem_cons_self)] at hc
  cases hc

/-- The last write in a log that ends in calls that store nothing comes before them. -/
theorem lastWritten_of_append (h : LastWritten (log ++ rest) p v after)
    (hrest : ∀ c ∈ rest, c.stored? = none) :
    ∃ a, after = a ++ rest ∧ LastWritten log p v a ∧ ∀ c ∈ rest, c.path ≠ p :=
  (lastWritten_append.1 h).resolve_left (not_lastWritten hrest)

/-! ## Accounts -/

/-- The variables have the values that were written last, and what was written last and not
deleted is a variable, unless it was empty and something below it was deleted. -/
structure Accounts (d : String) (log : List Call) (env : Env) : Prop where
  written : ∀ x v, env.get? x = some v →
    ∃ after, LastWritten log (d ++ "/" ++ x) (Text.Utf8.encode v) after
  kept : ∀ x v after, LastWritten log (d ++ "/" ++ x) (Text.Utf8.encode v) after →
    env.get? x = some v ∨
      (v = "" ∧ ∃ y, .delete (d ++ "/" ++ y) ∈ after ∧ Path.startsWith (x ++ "/") y = true)

namespace Accounts

variable {d : String} {env env' : Env} {x : String}

theorem ne_path {y : String} (h : y ≠ x) : d ++ "/" ++ x ≠ d ++ "/" ++ y :=
  fun heq => h (Path.append_left_cancel heq).symm

theorem empty (d : String) : Accounts d [] .empty where
  written _ _ h := nomatch h
  kept _ _ _ h := absurd h (not_lastWritten fun _ hc => nomatch hc)

theorem write (h : Accounts d log env) {c : Call} {v : String}
    (hc : c.stored? = some (d ++ "/" ++ x, Text.Utf8.encode v)) :
    Accounts d (log ++ [c]) (env.insert x v) := by
  have hpath := Call.path_of_stored? hc
  constructor
  · intro y w hy
    rw [OrderedMap.get?_insert] at hy
    by_cases hxy : y = x
    · rw [if_pos hxy] at hy
      cases hy
      subst hxy
      exact ⟨[], lastWritten_append.2 (Or.inl (lastWritten_singleton.2 ⟨rfl, hc⟩))⟩
    · rw [if_neg hxy] at hy
      obtain ⟨after, hlast⟩ := h.written y w hy
      refine ⟨after ++ [c], lastWritten_append.2 (Or.inr ⟨after, rfl, hlast, ?_⟩)⟩
      rw [List.forall_mem_singleton, hpath]
      exact ne_path hxy
  · intro y w after hlast
    rw [OrderedMap.get?_insert]
    rcases lastWritten_append.1 hlast with hnew | ⟨a, rfl, hold, hother⟩
    · left
      have hsame := hc.symm.trans (lastWritten_singleton.1 hnew).2
      obtain ⟨hxy, hvalue⟩ := Prod.mk.inj (Option.some.inj hsame)
      rw [if_pos (Path.append_left_cancel hxy).symm, Text.Utf8.encode_injective hvalue]
    · rw [List.forall_mem_singleton, hpath] at hother
      have hxy : y ≠ x := by
        rintro rfl
        exact hother rfl
      rw [if_neg hxy]
      refine (h.kept y w a hold).imp_right fun ⟨hempty, z, hz, hstart⟩ => ?_
      exact ⟨hempty, z, List.mem_append_left _ hz, hstart⟩

/-- Calls that store nothing take those variables away whose nodes they are for. -/
theorem append (h : Accounts d log env) (hrest : ∀ c ∈ rest, c.stored? = none)
    (henv : ∀ x v, env'.get? x = some v ↔
      env.get? x = some v ∧ ∀ c ∈ rest, c.path ≠ d ++ "/" ++ x) :
    Accounts d (log ++ rest) env' := by
  constructor
  · intro x v hx
    obtain ⟨hold, hother⟩ := (henv x v).1 hx
    obtain ⟨after, hlast⟩ := h.written x v hold
    exact ⟨after ++ rest, lastWritten_append.2 (Or.inr ⟨after, rfl, hlast, hother⟩)⟩
  · intro x v after hlast
    obtain ⟨a, rfl, hold, hother⟩ := lastWritten_of_append hlast hrest
    refine (h.kept x v a hold).imp (fun hx => (henv x v).2 ⟨hx, hother⟩) fun hgone => ?_
    obtain ⟨hempty, y, hy, hstart⟩ := hgone
    exact ⟨hempty, y, List.mem_append_left _ hy, hstart⟩

/-- A deletion of a variable's node. -/
theorem delete (h : Accounts d log env) (x : String) :
    Accounts d (log ++ [.delete (d ++ "/" ++ x)]) (env.erase x) := by
  refine h.append (List.forall_mem_singleton.2 rfl) fun y v => ?_
  rw [OrderedMap.get?_erase, List.forall_mem_singleton]
  by_cases hxy : y = x
  · subst hxy
    rw [if_pos rfl]
    exact iff_of_false (fun h => nomatch h) fun h => h.2 rfl
  · rw [if_neg hxy]
    exact (and_iff_left (ne_path hxy)).symm

/-- Deletions of what is no variable. -/
theorem absent (h : Accounts d log env) (hrest : ∀ c ∈ rest, c.stored? = none)
    (habsent : ∀ x, env.contains x = true → ∀ c ∈ rest, c.path ≠ d ++ "/" ++ x) :
    Accounts d (log ++ rest) env := by
  refine h.append hrest fun x v => (and_iff_left_of_imp fun hx => habsent x ?_).symm
  rw [OrderedMap.contains, hx]
  rfl

/-- After deletions empty variables above them can be gone. -/
theorem pruned {paths : List String} (h : Accounts d (log ++ paths.map .delete) env)
    (hd : d ≠ Path.root) (hpaths : ∀ p ∈ paths, ∃ y, Path.IsRelative y ∧ p = d ++ "/" ++ y)
    (henv : ∀ x, env.contains x = true → Path.IsRelative x)
    (hpruned : env.Pruned (fun x => ∃ p ∈ paths, Path.Below (d ++ "/" ++ x) p) env') :
    Accounts d (log ++ paths.map .delete) env' := by
  constructor
  · intro x v hx
    rcases hpruned x with hsame | ⟨hnone, _⟩
    · exact h.written x v (hsame.symm.trans hx)
    · rw [hnone] at hx
      cases hx
  · intro x v after hlast
    rcases h.kept x v after hlast with hx | hgone
    · rcases hpruned x with hsame | ⟨_, hempty, p, hp, hbelow⟩
      · exact Or.inl (hsame.trans hx)
      · right
        obtain ⟨a, rfl, _⟩ := lastWritten_of_append hlast (List.forall_mem_map.2 fun _ _ => rfl)
        obtain ⟨y, hy, rfl⟩ := hpaths p hp
        have hcontains : env.contains x = true := by rw [OrderedMap.contains, hx]; rfl
        have hstart := (Path.below_cut_iff hd (henv x hcontains).ne_empty hy.ne_empty).1 hbelow
        refine ⟨Option.some.inj (hx.symm.trans hempty), y, ?_, hstart⟩
        exact List.mem_append_right _ (List.mem_map.2 ⟨_, hp, rfl⟩)
    · exact Or.inr hgone

end Accounts

/-! ## Writes of variables -/

/-- A call that stores or deletes a variable below `d`. -/
inductive Call.ForVariable (d : String) : Call → Prop where
  | create {x : String} (hx : Path.IsRelative x) (v : String) :
    ForVariable d (.create (d ++ "/" ++ x) (Text.Utf8.encode v))
  | set {x : String} (hx : Path.IsRelative x) (v : String) :
    ForVariable d (.set (d ++ "/" ++ x) (Text.Utf8.encode v))
  | delete {x : String} (hx : Path.IsRelative x) : ForVariable d (.delete (d ++ "/" ++ x))

/-- The groups that deletions may have left empty. -/
def Emptied (calls : List Call) (g : String) : Prop :=
  ∃ p, .delete p ∈ calls ∧ Path.parent? p = some g

namespace Tree.Records

variable {t t' : Tree} {d : String} {env : Env} {idle : String → Prop}

/-- A call for a variable that succeeds keeps the record and the account. -/
theorem step (h : t.Records d env idle) (ha : Accounts d log env) (hd : d ≠ Path.root) {c : Call}
    (hc : c.ForVariable d) {reply : c.Reply} (hreply : t.respond c = (.ok reply, t')) :
    ∃ env', t'.Records d env' (fun g => idle g ∨ Emptied [c] g) ∧
      Accounts d (log ++ [c]) env' := by
  cases hc with
  | @create x hx v =>
    obtain ⟨_, hmissing, rfl⟩ := created_of_respond hreply
    exact ⟨_, (h.created hd hx hmissing v).mono fun _ => Or.inl, ha.write rfl⟩
  | @set x hx v =>
    obtain ⟨cell, hcell, rfl⟩ := written_of_respond hreply
    exact ⟨_, (h.written hx hcell v).mono fun _ => Or.inl, ha.write rfl⟩
  | @delete x hx =>
    obtain ⟨parent, hparent, hhas, hleaf, rfl⟩ := removed_of_respond hreply
    have hne := (Path.below_cut hd hx.ne_empty).ne.symm
    refine ⟨_, (h.removed hhas hparent hleaf hne (get?_erase_path env x)).mono fun g hg => ?_,
      ha.delete x⟩
    rcases hg with rfl | ⟨hidle, _⟩
    · exact Or.inr ⟨_, List.mem_cons_self, hparent⟩
    · exact Or.inl hidle

/-- Calls for variables that succeed one after another keep the record and the account. -/
theorem makes (h : t.Records d env idle) (ha : Accounts d log env) (hd : d ≠ Path.root)
    {calls : List Call} (hmakes : t.Makes calls t') (hcalls : ∀ c ∈ calls, c.ForVariable d) :
    ∃ env', t'.Records d env' (fun g => idle g ∨ Emptied calls g) ∧
      Accounts d (log ++ calls) env' := by
  induction hmakes generalizing env log idle with
  | nil t => exact ⟨env, h.mono fun _ => Or.inl, by rwa [List.append_nil]⟩
  | @cons t t₁ t₂ c calls reply head tail ih =>
    obtain ⟨hc, hrest⟩ := List.forall_mem_cons.1 hcalls
    obtain ⟨env₁, h₁, ha₁⟩ := h.step ha hd hc head
    obtain ⟨env₂, h₂, ha₂⟩ := ih h₁ ha₁ hrest
    rw [List.append_assoc] at ha₂
    refine ⟨env₂, h₂.mono fun g hg => ?_, ha₂⟩
    rcases hg with (hidle | ⟨p, hp, hparent⟩) | ⟨p, hp, hparent⟩
    · exact Or.inl hidle
    · exact Or.inr ⟨p, List.mem_singleton.1 hp ▸ List.mem_cons_self, hparent⟩
    · exact Or.inr ⟨p, List.mem_cons_of_mem _ hp, hparent⟩

end Tree.Records

end Coordination
