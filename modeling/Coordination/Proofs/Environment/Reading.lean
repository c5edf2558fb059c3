import Coordination.Proofs.Environment.Records

/-!
# Reading an environment

Reading lists the nodes without children below the root of an environment, under their names
relative to it. What is recorded below the root tells what is listed: a variable with its value
if nothing is below it, and an idle group with nothing below it as if it were a variable with
the empty value.
-/

namespace Coordination.Tree

/-- Reading leaves collects their values under their relative names. -/
theorem run_readLeaves (t : Tree) {d : String} (hd : d ≠ Path.root) {value : String → String}
    {nodes : List Node} (hnodes : ∀ n ∈ nodes, ∃ x, n.path = d ++ "/" ++ x ∧
      n.value = Text.Utf8.encode (value x)) (found : Env) :
    ∃ listed, t.run (Registry.readLeaves d nodes found).run = (.ok listed, t) ∧
      ∀ x, listed.get? x =
        if d ++ "/" ++ x ∈ nodes.map Node.path then some (value x) else found.get? x := by
  induction nodes generalizing found with
  | nil => exact ⟨found, rfl, fun x => (if_neg List.not_mem_nil).symm⟩
  | cons n rest ih =>
    obtain ⟨⟨x, hpath, hvalue⟩, hrest⟩ := List.forall_mem_cons.1 hnodes
    have hname : (n.relativeTo? d).getD n.name = x := by
      rw [Node.relativeTo?, hpath, Path.relativeTo?_cut hd]
      rfl
    obtain ⟨listed, hrun, hlisted⟩ := ih hrest (found.insert x (value x))
    refine ⟨listed, ?_, fun y => ?_⟩
    · rw [Registry.readLeaves, run_bind_ok (run_decode hvalue), hname]
      exact hrun
    · rw [hlisted, OrderedMap.get?_insert, List.map_cons, hpath]
      by_cases hy : y = x
      · subst hy
        rw [if_pos rfl, if_pos List.mem_cons_self, ite_self]
      · have hne : d ++ "/" ++ y ≠ d ++ "/" ++ x := fun h => hy (Path.append_left_cancel h)
        rw [if_neg hy]
        simp only [List.mem_cons, hne, false_or]

namespace Records

variable {t : Tree} {d : String} {env : Env} {idle : String → Prop} {x : String}

/-- A node that is no variable has the empty value, and something below it unless it is idle. -/
theorem of_not_variable (h : t.Records d env idle) (hhas : t.Has (d ++ "/" ++ x))
    (hbelow : Path.Below d (d ++ "/" ++ x)) (hx : env.get? x = none) :
    t.value? (d ++ "/" ++ x) = some [] ∧
      (t.childPaths (d ++ "/" ++ x) ≠ [] ∨ idle (d ++ "/" ++ x)) := by
  rcases h.group _ hhas hbelow with ⟨y, hy, heq⟩ | hgroup
  · obtain rfl := Path.append_left_cancel heq
    rw [OrderedMap.contains, hx] at hy
    cases hy
  · exact hgroup

theorem value_of_has (h : t.Records d env idle) (hhas : t.Has (d ++ "/" ++ x))
    (hbelow : Path.Below d (d ++ "/" ++ x)) :
    t.value? (d ++ "/" ++ x) = some (Text.Utf8.encode ((env.get? x).getD "")) := by
  cases hx : env.get? x with
  | some v => exact h.value x v hx
  | none => exact (h.of_not_variable hhas hbelow hx).1

/-- Reading succeeds and lists what has no children, with the value that is recorded. -/
theorem run_getEnv {r : Registry} {id : ReleaseId} {v₀ : Bytes} (h : t.Records d env idle)
    (hplaces : r.PlacesEnv id d v₀) (hd : d ≠ Path.root) {n : Nat} (hr : t.revision? d = some n) :
    ∃ listed, t.run (r.getEnv id).run = (.ok (listed, n), t) ∧
      ∀ x v, listed.get? x = some v ↔ (t.Has (d ++ "/" ++ x) ∧ Path.Below d (d ++ "/" ++ x) ∧
        t.childPaths (d ++ "/" ++ x) = []) ∧ v = (env.get? x).getD "" := by
  have hnodes : ∀ n ∈ (t.nodesBelow (fun _ => true) d).filter Node.isLeaf,
      ∃ x, n.path = d ++ "/" ++ x ∧ n.value = Text.Utf8.encode ((env.get? x).getD "") := by
    intro n hn
    obtain ⟨q, hbelow, _, hnode⟩ := (mem_leavesBelow_iff h.sound h.valid).1 hn
    obtain ⟨c, hc, rfl⟩ := node?_eq_some_iff.1 hnode
    have hhas := has_iff_get?.2 ⟨c, hc⟩
    obtain ⟨x, _, rfl⟩ := hbelow.exists_cut h.valid hd (h.sound.valid hhas)
    have hvalue := h.value_of_has hhas hbelow
    rw [value?, hc] at hvalue
    exact ⟨x, rfl, Option.some.inj hvalue⟩
  obtain ⟨root, hroot, hrevision⟩ := run_node_of_revision h.valid hr
  obtain ⟨listed, hread, hlisted⟩ := run_readLeaves t hd hnodes .empty
  refine ⟨listed, ?_, fun x v => ?_⟩
  · rw [hplaces.getEnv_eq, run_bind_ok hroot, run_bind_ok (run_visit h.valid h.there _),
      run_bind_ok hread, hrevision]
    rfl
  · rw [hlisted, OrderedMap.get?_empty, ← mem_leafPaths_iff h.sound h.valid]
    split
    · rw [and_iff_right ‹_›, Option.some.injEq, eq_comm]
    · exact iff_of_false (Option.some_ne_none v).symm fun hx => absurd hx.1 ‹_›

end Records

end Coordination.Tree
