import Coordination.Proofs.Tree.Deletions

/-!
# The phases of a batch

A planned batch creates what is missing, then sets what is there, then deletes what was there.
Where nothing is made to fail, the first two phases come to their end: the paths ascend, so
that no creation has made a later path as an ancestor of an earlier one. The deletions ascend,
too, so that a node is asked to go before what is below it. They come to their end exactly if
nothing is below any of them when they begin, be it a node of before or one just created;
otherwise the first that has something below it fails.
-/

namespace Coordination

namespace Path

/-- A path comes before what is below it. -/
theorem lt_of_below {p q : String} (h : Below p q) : p < q := by
  have hpre : p.toList <+: q.toList :=
    startsWith_iff.1 (startsWith_trans (startsWith_childStart p) h.2)
  rcases Std.Trichotomous.rel_or_eq_or_rel_swap (r := fun a b : String => a < b)
    (a := p) (b := q) with hlt | heq | hlt
  · exact hlt
  · exact absurd heq h.ne
  · have hnot := not_lt_of_prefix hpre
    exact absurd (String.lt_iff.1 hlt) hnot

end Path

namespace Tree

variable {t t' : Tree} {d p q : String} {l : List (String × Bytes)}

/-! ## What the phases leave -/

theorem Makes.of_append {calls calls' : List Call} {t'' : Tree}
    (h : Makes t (calls ++ calls') t'') : ∃ t', Makes t calls t' ∧ Makes t' calls' t'' := by
  induction calls generalizing t with
  | nil => exact ⟨t, .nil t, h⟩
  | cons c rest ih =>
    cases h with
    | cons head tail =>
      obtain ⟨t', hrest, htail⟩ := ih tail
      exact ⟨t', .cons head hrest, htail⟩

/-- Creations that succeed add their nodes and what was missing above them. -/
theorem Makes.has_creates (ht : t.Sound) (h : Makes t (l.map fun w => .create w.1 w.2) t') :
    t'.Has q ↔ t.Has q ∨ (Path.isValid q = true ∧ ∃ w ∈ l, q = w.1 ∨ Path.Below q w.1) := by
  induction l generalizing t with
  | nil =>
    rw [h.eq_of_nil]
    exact (or_iff_left fun hq => by obtain ⟨_, w, hw, _⟩ := hq; cases hw).symm
  | cons w rest ih =>
    cases h with
    | cons head tail =>
      obtain ⟨hp, _, rfl⟩ := created_of_respond head
      rw [ih (sound_created ht hp w.2) tail, has_created ht hp]
      constructor
      · rintro ((rfl | ⟨hq, hbelow⟩ | hhas) | ⟨hq, u, hu, hqu⟩)
        · exact Or.inr ⟨hp, w, List.mem_cons_self, Or.inl rfl⟩
        · exact Or.inr ⟨hq, w, List.mem_cons_self, Or.inr hbelow⟩
        · exact Or.inl hhas
        · exact Or.inr ⟨hq, u, List.mem_cons_of_mem _ hu, hqu⟩
      · rintro (hhas | ⟨hq, u, hu, hqu⟩)
        · exact Or.inl (Or.inr (Or.inr hhas))
        · rcases List.mem_cons.1 hu with rfl | hu
          · rcases hqu with rfl | hbelow
            · exact Or.inl (Or.inl rfl)
            · exact Or.inl (Or.inr (Or.inl ⟨hq, hbelow⟩))
          · exact Or.inr ⟨hq, u, hu, hqu⟩

/-- What is created was missing, and its path is valid. -/
theorem Makes.valid_creates (ht : t.Sound) (h : Makes t (l.map fun w => .create w.1 w.2) t') :
    ∀ w ∈ l, Path.isValid w.1 = true := by
  induction l generalizing t with
  | nil => exact List.forall_mem_nil _
  | cons w rest ih =>
    cases h with
    | cons head tail =>
      obtain ⟨hp, _, rfl⟩ := created_of_respond head
      exact List.forall_mem_cons.2 ⟨hp, ih (sound_created ht hp w.2) tail⟩

theorem Makes.has_sets (h : Makes t (l.map fun w => .set w.1 w.2) t') : t'.Has q ↔ t.Has q := by
  induction l generalizing t with
  | nil => rw [h.eq_of_nil]
  | cons w rest ih =>
    cases h with
    | cons head tail =>
      obtain ⟨c, hc, rfl⟩ := written_of_respond head
      rw [ih tail, has_written hc]

/-- After all phases there is what was there or was written, but for what is deleted. -/
theorem Makes.has_batch (ht : t.Sound) {b : Batch} (h : Makes t b.calls t') :
    t'.Has q ↔ (t.Has q ∨
      (Path.isValid q = true ∧ ∃ w ∈ b.creates, q = w.1 ∨ Path.Below q w.1)) ∧
        q ∉ b.deletes := by
  obtain ⟨t₂, hwrites, hdeletes⟩ := h.of_append
  obtain ⟨t₁, hcreates, hsets⟩ := hwrites.of_append
  rw [hdeletes.has_deletes, hsets.has_sets, hcreates.has_creates ht]

/-! ## Creating and setting -/

/-- In ascending order, missing nodes can be created one after another. -/
theorem makes_creates (ht : t.Sound) (hu : t.locked = none)
    (hl : (l.map (·.1)).Pairwise (· < ·)) (hvalid : ∀ w ∈ l, Path.isValid w.1 = true)
    (hmissing : ∀ w ∈ l, ¬ t.Has w.1) :
    ∃ t', Makes t (l.map fun w => .create w.1 w.2) t' := by
  induction l generalizing t with
  | nil => exact ⟨t, .nil t⟩
  | cons w rest ih =>
    obtain ⟨hw, hrest⟩ := List.forall_mem_cons.1 hvalid
    obtain ⟨habsent, hmissing⟩ := List.forall_mem_cons.1 hmissing
    rw [List.map_cons, List.pairwise_cons] at hl
    obtain ⟨n, hcreate⟩ := respond_create_of_not_has hu hw habsent w.2
    -- what comes later is neither the new node nor above it
    have hlater : ∀ u ∈ rest, ¬ (t.created w.1 w.2).Has u.1 := by
      intro u hu'
      have hlt := hl.1 u.1 (List.mem_map_of_mem hu')
      rw [has_created ht hw]
      rintro (heq | ⟨_, hbelow⟩ | hhas)
      · exact String.lt_irrefl _ (heq ▸ hlt)
      · exact String.lt_irrefl _ (String.lt_trans hlt (Path.lt_of_below hbelow))
      · exact hmissing u hu' hhas
    obtain ⟨t', hmakes⟩ := ih (sound_created ht hw w.2) ((locked_created t _ _).trans hu) hl.2
      hrest hlater
    exact ⟨t', .cons hcreate hmakes⟩

theorem makes_sets (ht : t.Sound) (hu : t.locked = none) (hthere : ∀ w ∈ l, t.Has w.1) :
    ∃ t', Makes t (l.map fun w => .set w.1 w.2) t' := by
  induction l generalizing t with
  | nil => exact ⟨t, .nil t⟩
  | cons w rest ih =>
    obtain ⟨hw, hrest⟩ := List.forall_mem_cons.1 hthere
    obtain ⟨c, hc⟩ := has_iff_get?.1 hw
    obtain ⟨n, hset⟩ := respond_set_of_get? hu (ht.valid hw) hc w.2
    obtain ⟨t', hmakes⟩ := ih (sound_written ht hc w.2) hu fun u hu' =>
      (has_written hc).2 (hrest u hu')
    exact ⟨t', .cons hset hmakes⟩

/-! ## Deleting -/

theorem respond_delete_of_not_leaf {parent : String} (hu : t.locked = none)
    (hp : Path.isValid p = true) (h : t.Has p) (hparent : Path.parent? p = some parent)
    (hchildren : t.childPaths p ≠ []) :
    t.respond (.delete p) = (.error (.notEmpty p), t) := by
  obtain ⟨c, hc⟩ := has_iff_get?.1 h
  have hdelete : t.delete p = .error (.notEmpty p) := by
    simp only [delete, checkPath_of_valid hp, hparent, checkWritable_of_unlocked hu,
      cell_of_get? hc]
    exact if_pos hchildren
  show ((Written.outcome t (t.delete p)).1, (Written.outcome t (t.delete p)).2.1) = _
  rw [hdelete]
  rfl

/-- Something is below the path. -/
def Blocked (t : Tree) (p : String) : Prop := ∃ q, t.Has q ∧ Path.Below p q

/-- Nodes with nothing below them can be deleted one after another. -/
theorem makes_deletes (ht : t.Sound) (hu : t.locked = none) {ps : List String} (hps : ps.Nodup)
    (hthere : ∀ p ∈ ps, t.Has p) (hroot : Path.root ∉ ps) (hfree : ∀ p ∈ ps, ¬ t.Blocked p) :
    ∃ t', Makes t (ps.map .delete) t' := by
  induction ps generalizing t with
  | nil => exact ⟨t, .nil t⟩
  | cons p rest ih =>
    obtain ⟨hp, hthere⟩ := List.forall_mem_cons.1 hthere
    obtain ⟨hfreep, hfree⟩ := List.forall_mem_cons.1 hfree
    rw [List.nodup_cons] at hps
    rw [List.mem_cons, not_or] at hroot
    have hvalid := ht.valid hp
    obtain ⟨parent, _, _, _, _, hparent⟩ := Path.exists_parent hvalid (Ne.symm hroot.1)
    have hleaf : t.childPaths p = [] :=
      (ht.childless_iff hvalid).2 fun q hq hbelow => hfreep ⟨q, hq, hbelow⟩
    obtain ⟨t', hmakes⟩ := ih (sound_removed ht hp hparent hleaf) hu hps.2
      (fun q hq => has_removed.2 ⟨fun heq => hps.1 (heq ▸ hq), hthere q hq⟩) hroot.2
      fun q hq ⟨c, hc, hbelow⟩ => hfree q hq ⟨c, (has_removed.1 hc).2, hbelow⟩
    exact ⟨t', hmakes.delete_cons hu hvalid hp hparent hleaf⟩

/-- A node with something below it cannot be deleted after nodes that come before it. -/
theorem Makes.respond_delete_of_blocked (ht : t.Sound) (hu : t.locked = none) {ps : List String}
    (h : Makes t (ps.map .delete) t') (hlt : ∀ q ∈ ps, q < p) (hp : t.Has p)
    (hroot : p ≠ Path.root) (hblocked : t.Blocked p) :
    t'.respond (.delete p) = (.error (.notEmpty p), t') := by
  obtain ⟨q, hq, hbelow⟩ := hblocked
  obtain ⟨ht', hu'⟩ := h.sound ht
  have hkept {c : String} (hc : t.Has c) (hle : ¬ c < p) : t'.Has c :=
    h.has_deletes.2 ⟨hc, fun hmem => hle (hlt c hmem)⟩
  have hthere := hkept hp (String.lt_irrefl p)
  obtain ⟨parent, _, _, _, _, hparent⟩ := Path.exists_parent (ht.valid hp) hroot
  refine respond_delete_of_not_leaf (hu'.trans hu) (ht.valid hp) hthere hparent ?_
  rw [ne_eq, ht'.childless_iff (ht.valid hp)]
  refine fun hnone => hnone q (hkept hq fun hqp => ?_) hbelow
  exact String.lt_irrefl _ (String.lt_trans hqp (Path.lt_of_below hbelow))

/-- If something is below some of the nodes to delete in ascending order, those before the first
of these are deleted, and this one is refused. -/
theorem makes_deletes_until (ht : t.Sound) (hu : t.locked = none) {ps : List String}
    (hps : ps.Pairwise (· < ·)) (hthere : ∀ p ∈ ps, t.Has p) (hroot : Path.root ∉ ps)
    (hsome : ∃ p ∈ ps, t.Blocked p) :
    ∃ before p after t', ps = before ++ p :: after ∧ t.Blocked p ∧
      Makes t (before.map .delete) t' ∧ t'.respond (.delete p) = (.error (.notEmpty p), t') := by
  classical
  obtain ⟨b, hb, hblockedb⟩ := hsome
  obtain ⟨p, hfirst⟩ := Option.isSome_iff_exists.1
    ((List.find?_isSome (p := fun p => decide (t.Blocked p))).2 ⟨b, hb, decide_eq_true hblockedb⟩)
  obtain ⟨hp, before, after, rfl, hbefore⟩ := List.find?_eq_some_iff_append.1 hfirst
  have hblocked : t.Blocked p := of_decide_eq_true hp
  rw [List.pairwise_append, List.pairwise_cons] at hps
  obtain ⟨hsorted, _, hcross⟩ := hps
  obtain ⟨hthere, hrest⟩ := List.forall_mem_append.1 hthere
  rw [List.mem_append, List.mem_cons, not_or, not_or] at hroot
  obtain ⟨t', hmakes⟩ := makes_deletes ht hu
    (OrderedMap.nodup_of_pairwise hsorted) hthere hroot.1
    fun q hq => by simpa using hbefore q hq
  refine ⟨before, p, after, t', rfl, hblocked, hmakes, ?_⟩
  exact hmakes.respond_delete_of_blocked ht hu (fun q hq => hcross q hq p List.mem_cons_self)
    (hrest p List.mem_cons_self) (Ne.symm hroot.2.1) hblocked

/-! ## Planned batches -/

/-- A path that is there has something below it that is there or is to be written. -/
def Obstructed (t : Tree) (writes : List (String × Bytes)) (p : String) : Prop :=
  t.Has p ∧ ∃ q, (t.Has q ∨ q ∈ writes.map (·.1)) ∧ Path.Below p q

/-- Calls that succeed may be followed by one that fails. -/
theorem Makes.run_applyCalls_error {done : List Call} {c : Call} {e : TreeError}
    (h : Makes t done t') (rest : List Call) (hc : t'.respond c = (.error e, t'))
    (applied : List String) :
    t.run (Batch.applyCalls applied (done ++ c :: rest)).run =
      (.error (Batch.failure (applied ++ done.map Call.path) c e), t') := by
  induction h generalizing applied with
  | nil t =>
    rw [List.nil_append, List.map_nil, List.append_nil, Batch.applyCalls, Batch.failure,
      run_bind_ok (run_attempt hc)]
    by_cases hnil : applied = []
    · simp only [if_pos hnil]
      rfl
    · simp only [if_neg hnil]
      rfl
  | @cons t t₁ t₂ c' calls reply head tail ih =>
    rw [List.cons_append, Batch.applyCalls, run_bind_ok (run_attempt head), List.map_cons,
      List.append_cons applied c'.path (calls.map Call.path)]
    exact ih hc _

theorem Makes.run_apply_error {b : Batch} {done : List Call} {c : Call} {e : TreeError}
    (h : Makes t done t') (rest : List Call) (hcalls : b.calls = done ++ c :: rest)
    (hc : t'.respond c = (.error e, t')) (applied : List String) :
    t.run (b.apply applied).run =
      (.error (Batch.failure (applied ++ done.map Call.path) c e), t') := by
  rw [Batch.apply, hcalls]
  exact run_bind_error (h.run_applyCalls_error rest hc applied)

section

variable {writes : List (String × Bytes)} {deletes : List String}

theorem mem_creates_planned {w : String × Bytes} :
    w ∈ (t.planned writes deletes).creates ↔ w ∈ writes ∧ ¬ t.Has w.1 := by
  rw [planned, List.mem_filter, decide_eq_true_eq]

theorem mem_updates_planned {w : String × Bytes} :
    w ∈ (t.planned writes deletes).updates ↔ w ∈ writes ∧ t.Has w.1 := by
  rw [planned, List.mem_filter, decide_eq_true_eq]

theorem mem_deletes_planned :
    p ∈ (t.planned writes deletes).deletes ↔ p ∈ deletes ∧ t.Has p := by
  rw [planned, List.mem_filter, decide_eq_true_eq]

/-- Every write is planned once. -/
theorem length_creates_add_updates : (t.planned writes deletes).creates.length +
    (t.planned writes deletes).updates.length = writes.length := by
  rw [List.length_eq_length_filter_add (l := writes) fun w => decide (t.Has w.1), Nat.add_comm]
  simp only [planned, decide_not]

/-- A planned batch that is applied writes to valid paths. -/
theorem Makes.valid_planned (ht : t.Sound) (h : Makes t (t.planned writes deletes).calls t') :
    ∀ w ∈ writes, Path.isValid w.1 = true := by
  intro w hw
  by_cases hthere : t.Has w.1
  · exact ht.valid hthere
  · obtain ⟨t₂, hwrites, _⟩ := h.of_append
    obtain ⟨t₁, hcreates, _⟩ := hwrites.of_append
    exact hcreates.valid_creates ht w (mem_creates_planned.2 ⟨hw, hthere⟩)

/-- When the deletions begin, exactly the obstructed paths have something below them. -/
theorem obstructed_iff_blocked {t₁ t₂ : Tree} (ht : t.Sound)
    (hcreates : Makes t ((t.planned writes deletes).creates.map fun w => .create w.1 w.2) t₁)
    (hsets : Makes t₁ ((t.planned writes deletes).updates.map fun w => .set w.1 w.2) t₂)
    (hp : t.Has p) : t.Obstructed writes p ↔ t₂.Blocked p := by
  have hhas (q : String) : t₂.Has q ↔ _ := hsets.has_sets.trans (hcreates.has_creates ht)
  rw [Obstructed, and_iff_right hp]
  constructor
  · rintro ⟨q, hq, hbelow⟩
    refine ⟨q, (hhas q).2 ?_, hbelow⟩
    by_cases hthere : t.Has q
    · exact Or.inl hthere
    · obtain ⟨w, hw, rfl⟩ := List.mem_map.1 (hq.resolve_left hthere)
      have hcreate : w ∈ (t.planned writes deletes).creates :=
        mem_creates_planned.2 ⟨hw, hthere⟩
      exact Or.inr ⟨hcreates.valid_creates ht w hcreate, w, hcreate, Or.inl rfl⟩
  · rintro ⟨q, hq, hbelow⟩
    rcases (hhas q).1 hq with hthere | ⟨_, w, hw, hqw⟩
    · exact ⟨q, Or.inl hthere, hbelow⟩
    · refine ⟨w.1, Or.inr (List.mem_map_of_mem (mem_creates_planned.1 hw).1), ?_⟩
      rcases hqw with rfl | hqw
      · exact hbelow
      · exact Path.below_trans hbelow hqw

/-- A planned batch can be made to its end if no path that it deletes is obstructed. If some
are, it stops at the first of these, since that is not empty. -/
theorem run_apply_planned (ht : t.Sound) (hu : t.locked = none)
    (hwrites : (writes.map (·.1)).Pairwise (· < ·)) (hdeletes : deletes.Pairwise (· < ·))
    (hvalid : ∀ w ∈ writes, Path.isValid w.1 = true) (hroot : Path.root ∉ deletes) :
    ((∀ p ∈ deletes, ¬ t.Obstructed writes p) →
      ∃ t', Makes t (t.planned writes deletes).calls t') ∧
    ((∃ p ∈ deletes, t.Obstructed writes p) → ∃ applied p t', p ∈ deletes ∧
      t.Obstructed writes p ∧ t.run ((t.planned writes deletes).apply []).run =
        (.error (Batch.failure applied (.delete p) (.notEmpty p)), t')) := by
  obtain ⟨t₁, hcreates⟩ := makes_creates ht hu (hwrites.sublist (List.filter_sublist.map _))
    (fun w hw => hvalid w (mem_creates_planned.1 hw).1)
    (l := (t.planned writes deletes).creates) fun w hw => (mem_creates_planned.1 hw).2
  obtain ⟨ht₁, hu₁⟩ := hcreates.sound ht
  have hkept {q : String} (hq : t.Has q) : t₁.Has q := (hcreates.has_creates ht).2 (Or.inl hq)
  obtain ⟨t₂, hsets⟩ := makes_sets (l := (t.planned writes deletes).updates) ht₁ (hu₁.trans hu)
    fun w hw => hkept (mem_updates_planned.1 hw).2
  obtain ⟨ht₂, hu₂⟩ := hsets.sound ht₁
  have hthere : ∀ p ∈ (t.planned writes deletes).deletes, t₂.Has p := fun p hp =>
    hsets.has_sets.2 (hkept (mem_deletes_planned.1 hp).2)
  have hsorted : (t.planned writes deletes).deletes.Pairwise (· < ·) := hdeletes.filter _
  have hroot' : Path.root ∉ (t.planned writes deletes).deletes := fun hmem =>
    hroot (mem_deletes_planned.1 hmem).1
  have hwritten := hcreates.append hsets
  constructor
  · intro hfree
    obtain ⟨t₃, hgone⟩ := makes_deletes ht₂ ((hu₂.trans hu₁).trans hu)
      (OrderedMap.nodup_of_pairwise hsorted) hthere hroot' fun p hp => by
        obtain ⟨hmem, hhas⟩ := mem_deletes_planned.1 hp
        rw [← obstructed_iff_blocked ht hcreates hsets hhas]
        exact hfree p hmem
    exact ⟨t₃, hwritten.append hgone⟩
  · rintro ⟨p, hp, hobstructed⟩
    have hblocked := (obstructed_iff_blocked ht hcreates hsets hobstructed.1).1 hobstructed
    obtain ⟨before, q, after, t₃, heq, hblockedq, hgone, hrefused⟩ :=
      makes_deletes_until ht₂ ((hu₂.trans hu₁).trans hu) hsorted hthere hroot'
        ⟨p, mem_deletes_planned.2 ⟨hp, hobstructed.1⟩, hblocked⟩
    have hq : q ∈ (t.planned writes deletes).deletes := by
      rw [heq]
      exact List.mem_append_right _ List.mem_cons_self
    obtain ⟨hmem, hhas⟩ := mem_deletes_planned.1 hq
    have hobstructedq := (obstructed_iff_blocked ht hcreates hsets hhas).2 hblockedq
    have hstops := (hwritten.append hgone).run_apply_error
      (b := t.planned writes deletes) (after.map .delete) ?_ hrefused []
    · exact ⟨_, q, t₃, hmem, hobstructedq, hstops⟩
    · rw [Batch.calls, heq, List.map_append, List.map_cons, ← List.append_assoc]

end

end Tree

end Coordination
