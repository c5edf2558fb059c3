import Coordination.Proofs.Tree.Running

/-!
# Revisions count the changes of the children

A call that does not delete a directory either leaves the children of the directory and its
revision as they are, or changes the children and moves the revision up. No revision comes
back, so over a whole run a directory is at an earlier revision exactly if its children were
the same in every tree since.
-/

namespace Coordination

namespace Tree

/-- Two trees list the same children exactly if the same children have nodes. -/
theorem childPaths_eq_iff {t t' : Tree} (ht : t.Sound) (ht' : t'.Sound) {d : String}
    (hd : Path.isValid d = true) :
    t'.childPaths d = t.childPaths d ↔
      ∀ c, Path.parent? c = some d → (t'.Has c ↔ t.Has c) := by
  constructor
  · intro heq c hparent
    have hmem : c ∈ t'.childPaths d ↔ c ∈ t.childPaths d := by rw [heq]
    rw [mem_childPaths_iff ht' hd, mem_childPaths_iff ht hd] at hmem
    simpa [hparent] using hmem
  · intro h
    have hperm : (t'.childPaths d).Perm (t.childPaths d) := by
      rw [List.perm_ext_iff_of_nodup (nodup_childPaths ht' hd) (nodup_childPaths ht hd)]
      intro c
      rw [mem_childPaths_iff ht' hd, mem_childPaths_iff ht hd, and_congr_left_iff]
      exact h c
    refine hperm.eq_of_pairwise ?_ (pairwise_childPaths ht' hd) (pairwise_childPaths ht hd)
    intro a b _ _ hab hba
    exact absurd (String.lt_trans hab hba) (String.lt_irrefl a)

/-- The children that a new node and its missing ancestors give to a directory. -/
theorem created_child_iff {t : Tree} (ht : t.Sound) {p c : String}
    (hp : Path.isValid p = true) (v : Bytes) (hmissing : ¬ t.Has p) :
    c ∈ p :: t.missingAncestors p ↔ (t.created p v).Has c ∧ ¬ t.Has c := by
  rw [List.mem_cons, mem_missingAncestors_iff ht hp, has_created ht hp]
  constructor
  · rintro (rfl | ⟨hvalid, hbelow, hnot⟩)
    · exact ⟨Or.inl rfl, hmissing⟩
    · exact ⟨Or.inr (Or.inl ⟨hvalid, hbelow⟩), hnot⟩
  · rintro ⟨rfl | ⟨hvalid, hbelow⟩ | hhas, hnot⟩
    · exact Or.inl rfl
    · exact Or.inr ⟨hvalid, hbelow, hnot⟩
    · exact absurd hhas hnot

/-- Between two trees nothing happened to the children of `d`, or they changed and the
revision of `d` went up. -/
def Tick (d : String) (t t' : Tree) : Prop :=
  ∃ r r', t.revision? d = some r ∧ t'.revision? d = some r' ∧
    (r' = r ∧ t'.childPaths d = t.childPaths d ∨
      r < r' ∧ t'.childPaths d ≠ t.childPaths d)

theorem Tick.refl {t : Tree} {d : String} (hd : t.Has d) : Tick d t t := by
  obtain ⟨r, hr⟩ := has_iff_revision?.1 hd
  exact ⟨r, r, hr, hr, Or.inl ⟨rfl, rfl⟩⟩

theorem tick_created {t : Tree} (ht : t.Sound) {p d : String} (hp : Path.isValid p = true)
    (v : Bytes) (hmissing : ¬ t.Has p) (hd : t.Has d) : Tick d t (t.created p v) := by
  have hne : d ≠ p := by
    rintro rfl
    exact hmissing hd
  obtain ⟨r, hr⟩ := has_iff_revision?.1 hd
  have hr' := revision?_created ht hp v hd hne
  rw [hr, Option.map_some] at hr'
  refine ⟨r, _, hr, hr', ?_⟩
  have hchildren := childPaths_eq_iff ht (sound_created ht hp v) (ht.valid hd)
  rcases Nat.eq_zero_or_pos
    ((p :: t.missingAncestors p).countP fun q => Path.parent? q = some d) with hzero | hpos
  · refine Or.inl ⟨by rw [hzero, Nat.add_zero], hchildren.2 fun c hparent => ?_⟩
    refine ⟨fun hcreated => ?_, fun hhas => (has_created ht hp).2 (Or.inr (Or.inr hhas))⟩
    rw [List.countP_eq_zero] at hzero
    refine Decidable.byContradiction fun hnot => ?_
    exact hzero c ((created_child_iff ht hp v hmissing).2 ⟨hcreated, hnot⟩)
      (decide_eq_true hparent)
  · refine Or.inr ⟨by omega, fun heq => ?_⟩
    obtain ⟨c, hmem, hparent⟩ := List.countP_pos_iff.1 hpos
    obtain ⟨hcreated, hnot⟩ := (created_child_iff ht hp v hmissing).1 hmem
    exact hnot ((hchildren.1 heq c (of_decide_eq_true hparent)).1 hcreated)

theorem tick_written {t : Tree} (ht : t.Sound) {p d : String} {c : Cell}
    (hc : t.cells.get? p = some c) (v : Bytes) (hd : t.Has d) : Tick d t (t.written p c v) := by
  obtain ⟨r, hr⟩ := has_iff_revision?.1 hd
  refine ⟨r, r, hr, (revision?_written hc v d).trans hr, Or.inl ⟨rfl, ?_⟩⟩
  rw [childPaths_eq_iff ht (sound_written ht hc v) (ht.valid hd)]
  exact fun c _ => has_written hc

theorem tick_removed {t : Tree} (ht : t.Sound) {p parent d : String} (hp : t.Has p)
    (hparent : Path.parent? p = some parent) (hleaf : t.childPaths p = []) (hd : t.Has d)
    (hne : d ≠ p) : Tick d t (t.removed p parent) := by
  obtain ⟨r, hr⟩ := has_iff_revision?.1 hd
  have hr' := revision?_removed t parent hne
  have hchildren := childPaths_eq_iff ht (sound_removed ht hp hparent hleaf) (ht.valid hd)
  by_cases hdp : d = parent
  · rw [if_pos hdp, hr, Option.map_some] at hr'
    refine ⟨r, r + 1, hr, hr', Or.inr ⟨Nat.lt_succ_self r, fun heq => ?_⟩⟩
    have hhas := (hchildren.1 heq p (hdp ▸ hparent)).2 hp
    exact (has_removed.1 hhas).1 rfl
  · rw [if_neg hdp, hr] at hr'
    refine ⟨r, r, hr, hr', Or.inl ⟨rfl, hchildren.2 fun c hc => ?_⟩⟩
    have hcp : c ≠ p := by
      rintro rfl
      exact hdp (Option.some.inj (hc.symm.trans hparent))
    rw [has_removed]
    simp [hcp]

/-- A call that does not delete the directory lets its revision tick with its children. -/
theorem Change.tick {t t' : Tree} {c : Call} (h : Change t c t') (ht : t.Sound) {d : String}
    (hd : t.Has d) (hc : c ≠ .delete d) : Tick d t t' := by
  cases h with
  | none c => exact .refl hd
  | create v hp hmissing => exact tick_created ht hp v hmissing hd
  | set v hcell => exact tick_written ht hcell v hd
  | delete hparent hp hleaf =>
    refine tick_removed ht hp hparent hleaf hd ?_
    rintro rfl
    exact hc rfl

/-! ## Runs -/

/-- What a directory goes through from one tree to another by way of those in `seen`: it is at
the revision that it was at exactly if its children were the same all the way. -/
structure Passage (d : String) (t : Tree) (seen : List Tree) (t' : Tree) : Prop where
  sound : t'.Sound
  first : t ∈ seen
  last : t' ∈ seen
  revisions : ∃ r r', t.revision? d = some r ∧ t'.revision? d = some r' ∧ r ≤ r' ∧
    (r' = r ↔ ∀ u ∈ seen, u.childPaths d = t.childPaths d)

namespace Passage

variable {d : String} {t t' t'' : Tree} {seen seen' : List Tree}

theorem has (h : Passage d t seen t') : t'.Has d := by
  obtain ⟨_, r', _, hr', _⟩ := h.revisions
  exact has_iff_revision?.2 ⟨r', hr'⟩

/-- At the end the directory is at another revision exactly if it had other children on the
way. -/
theorem exists_revision {r : Nat} (h : Passage d t seen t') (hr : t.revision? d = some r) :
    ∃ r', t'.revision? d = some r' ∧ (r' ≠ r ↔ ∃ u ∈ seen, u.childPaths d ≠ t.childPaths d) := by
  obtain ⟨r₀, r', hr₀, hr', _, hiff⟩ := h.revisions
  obtain rfl : r = r₀ := Option.some.inj (hr.symm.trans hr₀)
  refine ⟨r', hr', ?_⟩
  rw [ne_eq, hiff]
  simp only [Classical.not_forall, exists_prop]

theorem refl (ht : t.Sound) (hd : t.Has d) : Passage d t [t] t := by
  obtain ⟨r, hr⟩ := has_iff_revision?.1 hd
  refine ⟨ht, List.mem_singleton_self t, List.mem_singleton_self t, r, r, hr, hr,
    Nat.le_refl r, ?_⟩
  rw [List.forall_mem_singleton]
  exact iff_of_true rfl rfl

theorem trans (h : Passage d t seen t') (h' : Passage d t' seen' t'') :
    Passage d t (seen ++ seen') t'' := by
  obtain ⟨r, m, hr, hm, hle, hiff⟩ := h.revisions
  obtain ⟨m', r', hm', hr', hle', hiff'⟩ := h'.revisions
  obtain rfl : m = m' := Option.some.inj (hm.symm.trans hm')
  refine ⟨h'.sound, List.mem_append_left _ h.first, List.mem_append_right _ h'.last, r, r', hr,
    hr', Nat.le_trans hle hle', ?_⟩
  rw [List.forall_mem_append]
  constructor
  · rintro rfl
    have hmr : m = r' := Nat.le_antisymm hle' hle
    have hfirst := hiff.1 hmr
    have hmiddle := hfirst t' h.last
    refine ⟨hfirst, fun u hu => ?_⟩
    rw [hiff'.1 hmr.symm u hu, hmiddle]
  · rintro ⟨hfirst, hsecond⟩
    have hmiddle := hfirst t' h.last
    have hmr := hiff.2 hfirst
    rw [hiff'.2 fun u hu => (hsecond u hu).trans hmiddle.symm, hmr]

/-- A passage with one more tree in front. -/
theorem cons (ht : Tick d t t') (h : Passage d t' seen t'') : Passage d t (t :: seen) t'' := by
  obtain ⟨r, m, hr, hm, htick⟩ := ht
  obtain ⟨m', r', hm', hr', hle, hiff⟩ := h.revisions
  obtain rfl : m = m' := Option.some.inj (hm.symm.trans hm')
  rcases htick with ⟨rfl, hsame⟩ | ⟨hlt, hdiffer⟩
  · refine ⟨h.sound, List.mem_cons_self, List.mem_cons_of_mem _ h.last, m, r', hr, hr', hle, ?_⟩
    rw [hiff, List.forall_mem_cons, hsame]
    exact (and_iff_right rfl).symm
  · refine ⟨h.sound, List.mem_cons_self, List.mem_cons_of_mem _ h.last, r, r', hr, hr',
      by omega, ?_⟩
    refine iff_of_false (by omega) fun hall => ?_
    exact hdiffer (hall t' (List.mem_cons_of_mem _ h.first))

/-- Where the cells stay as they are, so does the directory. -/
theorem of_cells (ht : t.Sound) (hd : t.Has d) (h : t'.cells = t.cells) :
    Passage d t [t, t'] t' := by
  obtain ⟨r, hr⟩ := has_iff_revision?.1 hd
  have hr' : t'.revision? d = some r := by rw [revision?, h]; exact hr
  have hchildren : t'.childPaths d = t.childPaths d := by rw [childPaths, childPaths, h]
  refine cons ⟨r, r, hr, hr', Or.inl ⟨rfl, hchildren⟩⟩ (refl (ht.of_cells h) ?_)
  exact has_iff_revision?.2 ⟨r, hr'⟩

end Passage

end Tree

namespace Service

/-- The trees that a service goes through while it runs a program. -/
def trees {α : Type} (p : Program α) (s : Service) : List Tree :=
  (p.states answer s).map Service.tree

/-- The passage of a directory through a run that never deletes it. -/
theorem passage_run {α : Type} {ends : α → Prop} {p : Program α} {d : String}
    (hp : p.Keeps (· ≠ .delete d) ends) {s : Service} (hs : s.tree.Sound)
    (hd : s.tree.Has d) : Tree.Passage d s.tree (s.trees p) (s.run p).2.tree := by
  induction p generalizing s with
  | done a => exact .refl hs hd
  | call c next ih =>
    have hchange := s.change_answer c
    have htick := hchange.tick hs hd hp.1
    have hd' : (s.answer c).2.tree.Has d := by
      obtain ⟨_, r', _, hr', _⟩ := htick
      exact Tree.has_iff_revision?.2 ⟨r', hr'⟩
    exact .cons htick (ih (s.answer c).1 (hp.2 _) (hchange.sound hs) hd')

end Service

end Coordination
