import Coordination.Proofs.Registry.Steps
import Coordination.Registry.Batch

/-!
# Planning and making batches

Where nothing is made to fail, a plan tells the writes by what the tree holds and changes
nothing, and a batch is made if its calls succeed one after another. In any case a planned
batch consists of the writes and the deletions that it was planned for.
-/

namespace Coordination

/-- How many writes of each kind it takes to write to a map and to delete names from it. -/
def ChangeSummary.count {α β : Type} (m : OrderedMap α) (update : OrderedMap β)
    (delete : List String) : ChangeSummary where
  created := (update.keys.filter fun name => !m.contains name).length
  updated := (update.keys.filter fun name => m.contains name).length
  deleted := (delete.filter fun name => m.contains name).length

/-- The calls succeed one after another and lead from one tree to the other. -/
inductive Tree.Makes : Tree → List Call → Tree → Prop where
  | nil (t : Tree) : Makes t [] t
  | cons {t t' t'' : Tree} {c : Call} {calls : List Call} {reply : c.Reply}
    (head : t.respond c = (.ok reply, t')) (tail : Makes t' calls t'') : Makes t (c :: calls) t''

namespace Tree

theorem Makes.append {t t' t'' : Tree} {calls calls' : List Call} (h : Makes t calls t')
    (h' : Makes t' calls' t'') : Makes t (calls ++ calls') t'' := by
  induction h with
  | nil t => exact h'
  | cons head _ ih => exact .cons head (ih h')

/-! ## Where nothing is made to fail -/

theorem run_planWrites (t : Tree) {writes : List (String × Bytes)}
    (hvalid : ∀ w ∈ writes, Path.isValid w.1 = true) :
    t.run (Batch.planWrites writes).run =
      (.ok (writes.filter fun w => ¬ t.Has w.1, writes.filter fun w => t.Has w.1), t) := by
  induction writes with
  | nil => rfl
  | cons w rest ih =>
    obtain ⟨hw, hrest⟩ := List.forall_mem_cons.1 hvalid
    rw [Batch.planWrites, run_bind_ok (run_present hw), run_bind_ok (ih hrest)]
    by_cases h : t.Has w.1
    · rw [List.filter_cons_of_neg (by simpa using h), List.filter_cons_of_pos (by simpa using h),
        decide_eq_true h]
      rfl
    · rw [List.filter_cons_of_pos (by simpa using h), List.filter_cons_of_neg (by simpa using h),
        decide_eq_false h]
      rfl

theorem run_planDeletes (t : Tree) {paths : List String}
    (hvalid : ∀ p ∈ paths, Path.isValid p = true) :
    t.run (Batch.planDeletes paths).run = (.ok (paths.filter fun p => t.Has p), t) := by
  induction paths with
  | nil => rfl
  | cons p rest ih =>
    obtain ⟨hp, hrest⟩ := List.forall_mem_cons.1 hvalid
    rw [Batch.planDeletes, run_bind_ok (run_present hp), run_bind_ok (ih hrest)]
    by_cases h : t.Has p
    · rw [List.filter_cons_of_pos (by simpa using h), decide_eq_true h]
      rfl
    · rw [List.filter_cons_of_neg (by simpa using h), decide_eq_false h]
      rfl

/-- The batch that writes values and deletes nodes, as it is planned on a tree. -/
def planned (t : Tree) (writes : List (String × Bytes)) (deletes : List String) : Batch where
  creates := writes.filter fun w => ¬ t.Has w.1
  updates := writes.filter fun w => t.Has w.1
  deletes := deletes.filter fun p => t.Has p

/-- A planned call names one of the paths that it was planned for. -/
theorem path_of_mem_planned {t : Tree} {writes : List (String × Bytes)} {deletes : List String}
    {c : Call} (h : c ∈ (t.planned writes deletes).calls) :
    (∃ w ∈ writes, c.path = w.1) ∨ c.path ∈ deletes := by
  rcases List.mem_append.1 h with h | h
  · rcases List.mem_append.1 h with h | h
    · obtain ⟨w, hw, rfl⟩ := List.mem_map.1 h
      exact Or.inl ⟨w, (List.mem_filter.1 hw).1, rfl⟩
    · obtain ⟨w, hw, rfl⟩ := List.mem_map.1 h
      exact Or.inl ⟨w, (List.mem_filter.1 hw).1, rfl⟩
  · obtain ⟨p, hp, rfl⟩ := List.mem_map.1 h
    exact Or.inr (List.mem_filter.1 hp).1

theorem run_plan (t : Tree) {writes : List (String × Bytes)} {deletes : List String}
    (hwrites : ∀ w ∈ writes, Path.isValid w.1 = true)
    (hdeletes : ∀ p ∈ deletes, Path.isValid p = true) :
    t.run (Batch.plan writes deletes).run = (.ok (t.planned writes deletes), t) := by
  rw [Batch.plan, run_bind_ok (run_planWrites t hwrites),
    run_bind_ok (run_planDeletes t hdeletes)]
  rfl

section

variable {α β : Type} {t : Tree} {d : String} {m : OrderedMap β} (f : α → Bytes)
variable {update : OrderedMap α} {delete : List String}
variable (hupdate : ∀ o ∈ update.toList, (t.Has (d ++ "/" ++ o.1) ↔ m.contains o.1 = true))
variable (hdelete : ∀ name ∈ delete, (t.Has (d ++ "/" ++ name) ↔ m.contains name = true))

include hupdate hdelete

/-- Where the nodes behind a path are the names of a map, the map tells the writes. -/
theorem planned_eq :
    t.planned (update.toList.map fun o => (d ++ "/" ++ o.1, f o.2))
        (delete.map fun name => d ++ "/" ++ name) =
      ⟨(update.toList.filter fun o => !m.contains o.1).map fun o => (d ++ "/" ++ o.1, f o.2),
        (update.toList.filter fun o => m.contains o.1).map fun o => (d ++ "/" ++ o.1, f o.2),
        (delete.filter fun name => m.contains name).map fun name => d ++ "/" ++ name⟩ := by
  rw [planned, List.filter_map, List.filter_map, List.filter_map, Batch.mk.injEq]
  refine ⟨?_, ?_, ?_⟩
  · congr 1
    refine List.filter_congr fun o ho => ?_
    simp [hupdate o ho]
  · congr 1
    refine List.filter_congr fun o ho => ?_
    simp [hupdate o ho]
  · congr 1
    refine List.filter_congr fun name hname => ?_
    simp [hdelete name hname]

theorem summary_planned :
    (t.planned (update.toList.map fun o => (d ++ "/" ++ o.1, f o.2))
      (delete.map fun name => d ++ "/" ++ name)).summary = .count m update delete := by
  rw [planned_eq f hupdate hdelete, Batch.summary, ChangeSummary.count, List.length_map,
    List.length_map, List.length_map, OrderedMap.length_filter_keys,
    OrderedMap.length_filter_keys]

/-- A planned batch can be made if what is missing can be created, then what is there be set
and then what was there be deleted. -/
theorem makes_planned {t₁ t₂ t₃ : Tree}
    (hcreates : Makes t ((update.toList.filter fun o => !m.contains o.1).map fun o =>
      .create (d ++ "/" ++ o.1) (f o.2)) t₁)
    (hsets : Makes t₁ ((update.toList.filter fun o => m.contains o.1).map fun o =>
      .set (d ++ "/" ++ o.1) (f o.2)) t₂)
    (hdeletes : Makes t₂ ((delete.filter fun name => m.contains name).map fun name =>
      .delete (d ++ "/" ++ name)) t₃) :
    Makes t (t.planned (update.toList.map fun o => (d ++ "/" ++ o.1, f o.2))
      (delete.map fun name => d ++ "/" ++ name)).calls t₃ := by
  rw [planned_eq f hupdate hdelete, Batch.calls, List.map_map, List.map_map, List.map_map]
  exact (hcreates.append hsets).append hdeletes

end

theorem Makes.run_applyCalls {t t' : Tree} {calls : List Call} (h : Makes t calls t')
    (applied : List String) : t.run (Batch.applyCalls applied calls).run = (.ok (), t') := by
  induction h generalizing applied with
  | nil t => rfl
  | cons head _ ih =>
    rw [Batch.applyCalls, run_bind_ok (run_attempt head)]
    exact ih _

theorem Makes.run_apply {t t' : Tree} {b : Batch} (h : Makes t b.calls t')
    (applied : List String) : t.run (b.apply applied).run = (.ok b.summary, t') := by
  rw [Batch.apply, run_bind_ok (h.run_applyCalls applied)]
  rfl

end Tree

/-! ## In any case -/

namespace Batch

variable {allowed : Call → Prop}

theorem keeps_planWrites {writes : List (String × Bytes)}
    (h : ∀ w ∈ writes, allowed (.get w.1)) :
    (planWrites writes).Keeps allowed
      (fun ws => ∀ w ∈ ws.1 ++ ws.2, w ∈ writes) (¬ RegistryError.IsRevisionConflict ·) := by
  induction writes with
  | nil => exact Action.keeps_pure fun w hw => hw
  | cons w rest ih =>
    obtain ⟨hw, hrest⟩ := List.forall_mem_cons.1 h
    refine Action.Keeps.bind (Action.unconditional_present hw) fun there _ => ?_
    refine (ih hrest).bind fun ws hws => Action.keeps_pure ?_
    intro u hu
    cases there with
    | true =>
      rcases List.mem_append.1 hu with hu | hu
      · exact List.mem_cons_of_mem _ (hws u (List.mem_append_left _ hu))
      · rcases List.mem_cons.1 hu with rfl | hu
        · exact List.mem_cons_self
        · exact List.mem_cons_of_mem _ (hws u (List.mem_append_right _ hu))
    | false =>
      rcases List.mem_cons.1 hu with rfl | hu
      · exact List.mem_cons_self
      · exact List.mem_cons_of_mem _ (hws u hu)

theorem keeps_planDeletes {paths : List String} (h : ∀ p ∈ paths, allowed (.get p)) :
    (planDeletes paths).Keeps allowed (fun kept => ∀ p ∈ kept, p ∈ paths)
      (¬ RegistryError.IsRevisionConflict ·) := by
  induction paths with
  | nil => exact Action.keeps_pure fun p hp => hp
  | cons p rest ih =>
    obtain ⟨hp, hrest⟩ := List.forall_mem_cons.1 h
    refine Action.Keeps.bind (Action.unconditional_present hp) fun there _ => ?_
    refine (ih hrest).bind fun kept hkept => Action.keeps_pure ?_
    intro q hq
    cases there with
    | true =>
      rcases List.mem_cons.1 hq with rfl | hq
      · exact List.mem_cons_self
      · exact List.mem_cons_of_mem _ (hkept q hq)
    | false => exact List.mem_cons_of_mem _ (hkept q hq)

/-- A call of a batch creates or sets one of the values or deletes one of the paths. -/
theorem keeps_plan {writes : List (String × Bytes)} {deletes : List String}
    (hwrites : ∀ w ∈ writes, allowed (.get w.1) ∧ allowed (.create w.1 w.2) ∧
      allowed (.set w.1 w.2))
    (hdeletes : ∀ p ∈ deletes, allowed (.get p) ∧ allowed (.delete p)) :
    (plan writes deletes).Keeps allowed (fun b => ∀ c ∈ b.calls, allowed c)
      (¬ RegistryError.IsRevisionConflict ·) := by
  refine (keeps_planWrites fun w hw => (hwrites w hw).1).bind fun ws hws => ?_
  refine (keeps_planDeletes fun p hp => (hdeletes p hp).1).bind fun kept hkept => ?_
  refine Action.keeps_pure fun c hc => ?_
  rcases List.mem_append.1 hc with hc | hc
  · rcases List.mem_append.1 hc with hc | hc
    · obtain ⟨w, hw, rfl⟩ := List.mem_map.1 hc
      exact (hwrites w (hws w (List.mem_append_left _ hw))).2.1
    · obtain ⟨w, hw, rfl⟩ := List.mem_map.1 hc
      exact (hwrites w (hws w (List.mem_append_right _ hw))).2.2
  · obtain ⟨p, hp, rfl⟩ := List.mem_map.1 hc
    exact (hdeletes p (hkept p hp)).2

theorem unconditional_applyCalls {calls : List Call} (h : ∀ c ∈ calls, allowed c)
    (applied : List String) : (applyCalls applied calls).Unconditional allowed := by
  induction calls generalizing applied with
  | nil => exact Action.unconditional_pure ()
  | cons c rest ih =>
    obtain ⟨hc, hrest⟩ := List.forall_mem_cons.1 h
    refine (Action.unconditional_attempt hc).bind fun reply => ?_
    cases reply with
    | ok a => exact ih hrest _
    | error e =>
      show (if applied = [] then (throw (.tree e) : Action Unit)
        else throw (.partiallyApplied applied c.path e)).Unconditional allowed
      split
      · exact Action.unconditional_throw (Action.not_isRevisionConflict_tree e)
      · refine Action.unconditional_throw ?_
        rintro ⟨_, _, _, heq⟩
        cases heq

theorem unconditional_apply {b : Batch} (h : ∀ c ∈ b.calls, allowed c) (applied : List String) :
    (b.apply applied).Unconditional allowed :=
  (unconditional_applyCalls h applied).bind fun _ => Action.unconditional_pure _

end Batch

end Coordination
