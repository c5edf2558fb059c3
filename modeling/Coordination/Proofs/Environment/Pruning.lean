import Coordination.Proofs.Environment.Records
import Coordination.Proofs.Tree.Deletions

/-!
# Pruning

After nodes are deleted, the nodes above them are deleted, too, as long as they are empty: they
have neither children nor a value. Pruning stops at the first that stays and never fails. It
cannot tell a group from a variable with the empty value, so that it takes such a variable with
it if it stands above a deleted node and nothing else is below it.
-/

namespace Coordination

/-- Of the variables some are gone that have the empty value and stand where they may go. -/
def Env.Pruned (above : String → Prop) (env env' : Env) : Prop :=
  ∀ x, env'.get? x = env.get? x ∨ (env'.get? x = none ∧ env.get? x = some "" ∧ above x)

namespace Env.Pruned

variable {above above' : String → Prop} {env env' : Env}

theorem refl (above : String → Prop) (env : Env) : Pruned above env env := fun _ => Or.inl rfl

theorem mono (h : Pruned above env env') (hmono : ∀ x, above x → above' x) :
    Pruned above' env env' := fun x =>
  (h x).imp_right fun hgone => ⟨hgone.1, hgone.2.1, hmono x hgone.2.2⟩

/-- Where no variable may go, all stay. -/
theorem eq (h : Pruned above env env') (hnone : ∀ x, env.contains x = true → ¬ above x) :
    env' = env := by
  refine OrderedMap.ext_get? fun x => ?_
  rcases h x with hsame | ⟨_, hempty, habove⟩
  · exact hsame
  · have hcontains : env.contains x = true := by rw [OrderedMap.contains, hempty]; rfl
    exact absurd habove (hnone x hcontains)

end Env.Pruned

namespace Tree

/-- A node is empty if it has neither children nor a value. -/
def Empty (t : Tree) (g : String) : Prop := t.childPaths g = [] ∧ t.value? g = some []

/-- Below `d` empty nodes on the way were deleted. Of those that are left none became empty,
and none where a walk begins is empty. -/
structure Prunes (d : String) (begins way : String → Prop) (t : Tree) (gs : List String)
    (t' : Tree) : Prop where
  makes : Makes t (gs.map .delete) t'
  deleted : ∀ q ∈ gs, Path.Below d q ∧ way q ∧ t.value? q = some []
  left : ∀ q, t'.Has q → Path.Below d q → t'.Empty q → t.Empty q ∧ ¬ begins q

variable {t t' t'' : Tree} {d : String} {begins begins' way way' : String → Prop}
variable {gs gs' : List String}

namespace Prunes

theorem nil (h : ∀ q, t.Has q → Path.Below d q → t.Empty q → ¬ begins q) :
    Prunes d begins way t [] t :=
  ⟨.nil t, List.forall_mem_nil _, fun q hq hbelow hempty => ⟨hempty, h q hq hbelow hempty⟩⟩

theorem mono (h : Prunes d begins way t gs t') (hbegins : ∀ q, begins' q → begins q)
    (hway : ∀ q, way q → way' q) : Prunes d begins' way' t gs t' where
  makes := h.makes
  deleted q hq := (h.deleted q hq).imp_right fun hq => hq.imp_left (hway q)
  left q hq hbelow hempty :=
    (h.left q hq hbelow hempty).imp_right fun hnot hq => hnot (hbegins q hq)

theorem append (h : Prunes d begins way t gs t') (h' : Prunes d begins' way' t' gs' t'') :
    Prunes d (fun q => begins q ∨ begins' q) (fun q => way q ∨ way' q) t (gs ++ gs') t'' where
  makes := h.makes.append_deletes h'.makes
  deleted q hq := by
    rcases List.mem_append.1 hq with hq | hq
    · obtain ⟨hbelow, hway, hvalue⟩ := h.deleted q hq
      exact ⟨hbelow, Or.inl hway, hvalue⟩
    · obtain ⟨hbelow, hway, hvalue⟩ := h'.deleted q hq
      have hkept := (h.makes.has_deletes.1 (h'.makes.nodup_deletes.2 q hq)).2
      rw [h.makes.value?_deletes hkept] at hvalue
      exact ⟨hbelow, Or.inr hway, hvalue⟩
  left q hq hbelow hempty := by
    obtain ⟨hempty', hnot'⟩ := h'.left q hq hbelow hempty
    obtain ⟨hempty, hnot⟩ := h.left q (h'.makes.has_deletes.1 hq).1 hbelow hempty'
    exact ⟨hempty, fun hor => hor.elim hnot hnot'⟩

/-- An empty node is deleted, and then a walk begins at its parent. -/
theorem cons {g parent : String} (ht : t.Sound) (hu : t.locked = none) (hhas : t.Has g)
    (hbelow : Path.Below d g) (hparent : Path.parent? g = some parent) (hempty : t.Empty g)
    (hg : way g) (h : Prunes d (· = parent) way (t.removed g parent) gs t') :
    Prunes d (· = g) way t (g :: gs) t' where
  makes := h.makes.delete_cons hu (ht.valid hhas) hhas hparent hempty.1
  deleted := by
    refine List.forall_mem_cons.2 ⟨⟨hbelow, hg, hempty.2⟩, fun q hq => ?_⟩
    obtain ⟨hbelow, hway, hvalue⟩ := h.deleted q hq
    have hne := (has_removed.1 (h.makes.nodup_deletes.2 q hq)).1
    rw [value?_removed, if_neg hne] at hvalue
    exact ⟨hbelow, hway, hvalue⟩
  left q hq hbelow hq' := by
    obtain ⟨⟨hleaf, hvalue⟩, hne⟩ := h.left q hq hbelow hq'
    obtain ⟨hqg, hqt⟩ := has_removed.1 (h.makes.has_deletes.1 hq).1
    rw [value?_removed, if_neg hqg] at hvalue
    refine ⟨⟨?_, hvalue⟩, hqg⟩
    by_contra hchildren
    exact childPaths_removed_ne_nil ht hhas hparent hempty.1 (ht.valid hqt) hne hchildren hleaf

end Prunes

/-! ## Runs -/

/-- The groups below an environment start with its path and a slash. -/
theorem below_iff_startsWith (hp : Path.isValid d = true) (hd : d ≠ Path.root) {g : String} :
    Path.Below d g ↔ Path.startsWith (d ++ "/") g = true := by
  constructor
  · intro h
    rw [← Path.childStart_of_ne hd]
    exact h.2
  · exact Path.below_of_startsWith hd (Path.isValid_ne_empty hp)

/-- Pruning stops at a node that is not empty, is gone or is elsewhere. -/
theorem run_pruneUp_of_stays (hp : Path.isValid d = true) (hd : d ≠ Path.root) {g : String}
    (hg : Path.isValid g = true) (rest : List String)
    (hstays : Path.Below d g → t.Has g → ¬ t.Empty g) :
    t.run (Registry.pruneUp d (g :: rest)).run = (.ok 0, t) := by
  rw [Registry.pruneUp]
  by_cases hbelow : Path.Below d g
  · rw [if_pos ((below_iff_startsWith hp hd).1 hbelow)]
    by_cases hhas : t.Has g
    · obtain ⟨c, hc⟩ := has_iff_get?.1 hhas
      have hkeep : !(t.nodeOf g c).isLeaf ∨ (t.nodeOf g c).value ≠ [] := by
        by_cases hleaf : t.childPaths g = []
        · right
          intro hvalue
          refine hstays hbelow hhas ⟨hleaf, ?_⟩
          rw [value?, hc, ← hvalue]
          rfl
        · left
          simp [Node.isLeaf, nodeOf, hleaf]
      rw [run_bind_ok (run_attempt (respond_get_of_get? hg hc))]
      simp only [if_pos hkeep]
      rfl
    · rw [run_bind_ok (run_attempt (respond_get_of_not_has hg hhas))]
      rfl
  · rw [if_neg fun hstart => hbelow ((below_iff_startsWith hp hd).2 hstart)]
    rfl

/-- Pruning deletes an empty node and goes on with what is above it. -/
theorem run_pruneUp_of_empty (hp : Path.isValid d = true) (hd : d ≠ Path.root)
    (hu : t.locked = none) {g g' : String} (hg : Path.isValid g = true)
    (hbelow : Path.Below d g) (hparent : Path.parent? g = some g') (hempty : t.Empty g)
    {rest : List String} {n : Nat} {t' : Tree}
    (hrest : (t.removed g g').run (Registry.pruneUp d rest).run = (.ok n, t')) :
    t.run (Registry.pruneUp d (g :: rest)).run = (.ok (n + 1), t') := by
  obtain ⟨hleaf, hvalue⟩ := hempty
  obtain ⟨c, hc, hnothing⟩ := Option.map_eq_some_iff.1 hvalue
  have hgoes : ¬ (!(t.nodeOf g c).isLeaf ∨ (t.nodeOf g c).value ≠ []) := by
    simp [Node.isLeaf, nodeOf, hleaf, hnothing]
  have hdelete := respond_delete_of_leaf hu hg (has_iff_get?.2 ⟨c, hc⟩) hparent hleaf
  rw [Registry.pruneUp, if_pos ((below_iff_startsWith hp hd).1 hbelow),
    run_bind_ok (run_attempt (respond_get_of_get? hg hc))]
  simp only [if_neg hgoes]
  rw [run_bind_ok (run_attempt hdelete)]
  exact run_bind_ok hrest

/-- Pruning up from a path begins with its parent. -/
theorem run_pruneUp_prunes (hp : Path.isValid d = true) (hd : d ≠ Path.root) {g : String}
    (hg : Path.isValid g = true) (ht : t.Sound) (hu : t.locked = none) :
    ∃ gs t', t.run (Registry.pruneUp d (g :: Path.ancestors g)).run = (.ok gs.length, t') ∧
      Prunes d (· = g) (· ∈ g :: Path.ancestors g) t gs t' := by
  -- The induction goes down from the root: what is above a path is above its parent.
  revert t
  refine Path.valid_induction (P := fun g => ∀ {t : Tree}, t.Sound → t.locked = none →
    ∃ gs t', t.run (Registry.pruneUp d (g :: Path.ancestors g)).run = (.ok gs.length, t') ∧
      Prunes d (· = g) (· ∈ g :: Path.ancestors g) t gs t') ?_ ?_ hg
  · intro t ht hu
    have hnot : ¬ Path.Below d Path.root := fun hbelow => hbelow.1 rfl
    refine ⟨[], t, ?_, .nil ?_⟩
    · exact run_pruneUp_of_stays hp hd Path.isValid_root _ fun hbelow => absurd hbelow hnot
    · rintro q _ hbelow _ rfl
      exact hnot hbelow
  · intro parent g hg hparent ih t ht hu
    by_cases hgoes : Path.Below d g ∧ t.Has g ∧ t.Empty g
    · obtain ⟨hbelow, hhas, hempty⟩ := hgoes
      obtain ⟨gs, t', hrun, hprunes⟩ := ih (sound_removed ht hhas hparent hempty.1) hu
      rw [Path.ancestors_of_parent hparent]
      refine ⟨g :: gs, t', run_pruneUp_of_empty hp hd hu hg hbelow hparent hempty hrun, ?_⟩
      exact .cons ht hu hhas hbelow hparent hempty List.mem_cons_self
        (hprunes.mono (fun _ hq => hq) fun _ => List.mem_cons_of_mem g)
    · refine ⟨[], t, run_pruneUp_of_stays hp hd hg _ ?_, .nil ?_⟩
      · exact fun hbelow hhas hempty => hgoes ⟨hbelow, hhas, hempty⟩
      · rintro q hhas hbelow hempty rfl
        exact hgoes ⟨hbelow, hhas, hempty⟩

/-- Pruning after the deletion of a path begins with its parent, if it has one. -/
theorem run_pruneUp_ancestors (hp : Path.isValid d = true) (hd : d ≠ Path.root) {p : String}
    (hg : ∀ g, Path.parent? p = some g → Path.isValid g = true) (ht : t.Sound)
    (hu : t.locked = none) :
    ∃ gs t', t.run (Registry.pruneUp d (Path.ancestors p)).run = (.ok gs.length, t') ∧
      Prunes d (Path.parent? p = some ·) (· ∈ Path.ancestors p) t gs t' := by
  cases hparent : Path.parent? p with
  | none =>
    have hnone : Path.ancestors p = [] := by rw [Path.ancestors, hparent]
    rw [hnone]
    refine ⟨[], t, rfl, .nil fun q _ _ _ hq => ?_⟩
    cases hq
  | some g =>
    obtain ⟨gs, t', hrun, hprunes⟩ := run_pruneUp_prunes hp hd (hg g hparent) ht hu
    rw [Path.ancestors_of_parent hparent]
    exact ⟨gs, t', hrun, hprunes.mono (fun q hq => (Option.some.inj hq).symm) fun _ h => h⟩

/-- Pruning that walks up from every one of the paths. -/
abbrev PrunesAbove (d : String) (paths : List String) : Tree → List String → Tree → Prop :=
  Prunes d (fun q => ∃ p ∈ paths, Path.parent? p = some q)
    fun q => ∃ p ∈ paths, q ∈ Path.ancestors p

theorem run_pruneGroups_prunes (hp : Path.isValid d = true) (hd : d ≠ Path.root)
    {paths : List String}
    (hpaths : ∀ p ∈ paths, ∀ g, Path.parent? p = some g → Path.isValid g = true)
    (ht : t.Sound) (hu : t.locked = none) :
    ∃ gs t', t.run (Registry.pruneGroups d paths).run = (.ok gs.length, t') ∧
      PrunesAbove d paths t gs t' := by
  induction paths generalizing t with
  | nil => exact ⟨[], t, rfl, .nil fun q _ _ _ h => by obtain ⟨p, hp, _⟩ := h; cases hp⟩
  | cons p rest ih =>
    obtain ⟨hg, hrest⟩ := List.forall_mem_cons.1 hpaths
    obtain ⟨gs, t₁, hup, hprunes⟩ := run_pruneUp_ancestors hp hd hg ht hu
    obtain ⟨ht₁, hu₁⟩ := hprunes.makes.sound ht
    obtain ⟨gs', t₂, hgroups, hprunes'⟩ := ih hrest ht₁ (hu₁.trans hu)
    refine ⟨gs ++ gs', t₂, ?_, (hprunes.append hprunes').mono ?_ ?_⟩
    · rw [Registry.pruneGroups, run_bind_ok hup, run_bind_ok hgroups, List.length_append]
      rfl
    · rintro q ⟨p', hp', hq⟩
      rcases List.mem_cons.1 hp' with rfl | hp'
      · exact Or.inl hq
      · exact Or.inr ⟨p', hp', hq⟩
    · rintro q (hq | ⟨p', hp', hq⟩)
      · exact ⟨p, List.mem_cons_self, hq⟩
      · exact ⟨p', List.mem_cons_of_mem _ hp', hq⟩

/-! ## What is recorded -/

namespace Records

variable {env : Env} {idle : String → Prop}

/-- The variables whose nodes are not among some. -/
theorem exists_get?_without (env : Env) (d : String) (gs : List String) :
    ∃ env' : Env, ∀ x, env'.get? x = if d ++ "/" ++ x ∈ gs then none else env.get? x := by
  refine ⟨env.without (env.keys.filter fun x => d ++ "/" ++ x ∈ gs), fun x => ?_⟩
  rw [OrderedMap.get?_without]
  simp only [List.mem_filter, decide_eq_true_eq]
  by_cases hx : x ∈ env.keys
  · simp only [hx, true_and]
  · have hnone : env.get? x = none := by
      rw [← OrderedMap.contains_eq_false_iff, Bool.eq_false_iff]
      exact fun hcontains => hx (OrderedMap.contains_iff_mem_keys.1 hcontains)
    simp only [hnone, ite_self]

/-- Where empty nodes are deleted, variables with the empty value may go, and all others stay;
no group is idle any more where a walk has begun. -/
theorem prunes (h : t.Records d env fun g => idle g ∨ begins g) (hp : Prunes d begins way t gs t') :
    ∃ env', t'.Records d env' idle ∧ env.Pruned (fun x => way (d ++ "/" ++ x)) env' := by
  obtain ⟨env', hget⟩ := exists_get?_without env d gs
  have hstays {x : String} (hx : env'.contains x = true) :
      d ++ "/" ++ x ∉ gs ∧ env.contains x = true := by
    rw [OrderedMap.contains, hget] at hx
    by_cases hgs : d ++ "/" ++ x ∈ gs
    · rw [if_pos hgs] at hx
      cases hx
    · rw [if_neg hgs] at hx
      exact ⟨hgs, hx⟩
  obtain ⟨hsound, hunlocked⟩ := hp.makes.sound h.sound
  refine ⟨env', ⟨hsound, hunlocked.trans h.unlocked, ?_, ?_, ?_, ?_⟩, fun x => ?_⟩
  · exact hp.makes.has_deletes.2
      ⟨h.there, fun hd => Path.not_below_self d (hp.deleted d hd).1⟩
  · exact fun x hx => h.relative x (hstays hx).2
  · intro x v hv
    have hcontains : env'.contains x = true := by rw [OrderedMap.contains, hv]; rfl
    have hkept := (hstays hcontains).1
    rw [hget, if_neg hkept] at hv
    rw [hp.makes.value?_deletes hkept, h.value x v hv]
  · intro q hq hbelow
    obtain ⟨hhas, hkept⟩ := hp.makes.has_deletes.1 hq
    rcases h.group q hhas hbelow with ⟨x, hx, rfl⟩ | ⟨hvalue, hchildren⟩
    · refine Or.inl ⟨x, ?_, rfl⟩
      rwa [OrderedMap.contains, hget, if_neg hkept]
    · have hvalue' : t'.value? q = some [] := (hp.makes.value?_deletes hkept).trans hvalue
      refine Or.inr ⟨hvalue', or_iff_not_imp_left.2 fun hleaf => ?_⟩
      -- A node that is empty now was empty before, and no walk began at it.
      obtain ⟨hempty, hnot⟩ := hp.left q hq hbelow ⟨not_not.1 hleaf, hvalue'⟩
      exact ((hchildren.resolve_left fun hsome => hsome hempty.1).resolve_right hnot)
  · rw [hget]
    by_cases hgs : d ++ "/" ++ x ∈ gs
    · rw [if_pos hgs]
      cases hv : env.get? x with
      | none => exact Or.inl rfl
      | some v =>
        obtain ⟨_, hway, hvalue⟩ := hp.deleted _ hgs
        have hempty := (h.value x v hv).symm.trans hvalue
        have hnothing : Text.Utf8.encode v = Text.Utf8.encode "" := Option.some.inj hempty
        rw [Text.Utf8.encode_injective hnothing]
        exact Or.inr ⟨rfl, rfl, hway⟩
    · exact Or.inl (if_neg hgs)

/-- Pruning after the deletion of paths leaves none of their groups empty. -/
theorem run_pruneGroups (hd : d ≠ Path.root) {paths : List String}
    (hpaths : ∀ p ∈ paths, Path.isValid p = true)
    (h : t.Records d env fun g => idle g ∨ ∃ p ∈ paths, Path.parent? p = some g) :
    ∃ n t' env', t.run (Registry.pruneGroups d paths).run = (.ok n, t') ∧
      t'.Records d env' idle ∧
      env.Pruned (fun x => ∃ p ∈ paths, Path.Below (d ++ "/" ++ x) p) env' ∧
      ∀ q, t'.Has q → t.Has q := by
  obtain ⟨gs, t', hrun, hprunes⟩ := run_pruneGroups_prunes h.valid hd
    (fun p hp g hg => (Path.exists_name_of_parent (hpaths p hp) hg).1) h.sound h.unlocked
  obtain ⟨env', ht', hpruned⟩ := h.prunes hprunes
  refine ⟨gs.length, t', env', hrun, ht', hpruned.mono fun x hx => ?_, fun q hq => ?_⟩
  · obtain ⟨p, hp, hx⟩ := hx
    exact ⟨p, hp, ((Path.mem_ancestors_iff (hpaths p hp)).1 hx).2⟩
  · exact (hprunes.makes.has_deletes.1 hq).1

end Records

end Tree

end Coordination
