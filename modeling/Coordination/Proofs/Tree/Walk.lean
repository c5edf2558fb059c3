import Coordination.Proofs.Tree.Calls

/-!
# What a walk meets, and in which order

A walk lists a child, then what it meets below the child, then the next child. In the order
of paths segment by segment a path comes before the paths below it, and these come before
the next sibling and the paths below that. So the walk meets nodes in ascending order of
segments, each once, although the order of the texts of the paths is another: a name may go
on with a character that comes before the slash.

The walk does not look outside of the part of the tree that it walks through: over a copy
of that part it meets the same nodes.
-/

namespace Coordination

namespace Path

/-! ## The order of segments -/

theorem segments_childStart (p r : String) :
    segments (childStart p ++ r) = segments (stem p) ++ segments r := by
  rw [childStart_eq_stem, segments_cut]

/-- What is at or below a path starts with the segments of the path. -/
theorem exists_segments_of_within {c q : String} (hc : c ≠ root) (h : q = c ∨ Below c q) :
    ∃ rest, segments q = segments c ++ rest := by
  rcases h with rfl | hbelow
  · exact ⟨[], (List.append_nil _).symm⟩
  · obtain ⟨r, rfl⟩ := exists_append_of_startsWith hbelow.2
    exact ⟨segments r, by rw [childStart_of_ne hc, segments_cut]⟩

/-- A path comes before the paths below it. -/
theorem segments_lt_of_below {c q : String} (hc : c ≠ root) (h : Below c q) :
    segments c < segments q := by
  obtain ⟨r, rfl⟩ := exists_append_of_startsWith h.2
  obtain ⟨n, names, hr⟩ := List.exists_cons_of_ne_nil (segments_ne_nil r)
  rw [childStart_of_ne hc, segments_cut, hr]
  conv => lhs; rw [← List.append_nil (segments c)]
  exact List.append_left_lt (List.nil_lt_cons n names)

/-- What is at or below a path comes before what is at or below a later sibling. -/
theorem segments_lt_of_siblings {p c d x y : String} (hc : isValid c = true)
    (hd : isValid d = true) (hpc : parent? c = some p) (hpd : parent? d = some p) (h : c < d)
    (hx : x = c ∨ Below c x) (hy : y = d ∨ Below d y) : segments x < segments y := by
  obtain ⟨xs, hxs⟩ := exists_segments_of_within (ne_root_of_parent hpc) hx
  obtain ⟨ys, hys⟩ := exists_segments_of_within (ne_root_of_parent hpd) hy
  obtain ⟨_, m, hm, rfl⟩ := exists_name_of_parent hc hpc
  obtain ⟨_, n, hn, rfl⟩ := exists_name_of_parent hd hpd
  rw [hxs, hys, segments_childStart, segments_childStart, segments_of_no_slash hm.2,
    segments_of_no_slash hn.2, List.append_assoc, List.append_assoc]
  exact List.append_left_lt (List.cons_lt_cons_iff.2 (Or.inl (lt_of_append_lt_append h)))

end Path

namespace Tree

variable {t : Tree} {enter : Node → Bool} {p q : String} {n : Node}

theorem get_eq_ok_iff (hq : Path.isValid q = true) : t.get q = .ok n ↔ t.node? q = some n := by
  rw [node?_eq_some_iff]
  constructor
  · intro hget
    obtain ⟨c, hc, rfl⟩ := exists_get?_of_get hget
    exact ⟨c, hc, rfl⟩
  · rintro ⟨c, hc, rfl⟩
    rw [get, checkPath_of_valid hq, cell_of_get? hc]
    rfl

/-! ## The order of the walk -/

theorem within_of_mem_branch (ht : t.Sound) {c : String} (hc : Path.isValid c = true)
    (h : n ∈ t.branch enter c) : n.path = c ∨ Path.Below c n.path := by
  cases hnode : t.node? c with
  | none =>
    rw [branch, hnode, Option.elim_none] at h
    cases h
  | some m =>
    rw [branch_of_node? hnode, List.mem_cons] at h
    rcases h with rfl | h
    · exact Or.inl (path_of_node? hnode)
    · split at h
      · obtain ⟨q, hcq, hq, _⟩ := (mem_nodesBelow_iff_entered ht hc).1 h
        rw [path_of_node? hq]
        exact Or.inr hcq
      · cases h

/-- The nodes that a walk meets ascend in the order of segments. -/
theorem pairwise_nodesBelow (ht : t.Sound) (hp : Path.isValid p = true) :
    (t.nodesBelow enter p).Pairwise fun a b =>
      Path.segments a.path < Path.segments b.path := by
  induction p using t.children_induction with
  | step p ih =>
    rw [nodesBelow_eq_flatMap, List.pairwise_flatMap]
    constructor
    · -- a child comes before what is below it
      intro c hc
      have hvalid := ht.valid ((mem_childPaths_iff ht hp).1 hc).1
      obtain ⟨m, hm⟩ := exists_node? ((mem_childPaths_iff ht hp).1 hc).1
      have hroot := Path.ne_root_of_parent ((mem_childPaths_iff ht hp).1 hc).2
      rw [branch_of_node? hm, List.pairwise_cons]
      split
      · refine ⟨fun x hx => ?_, ih c hc hvalid⟩
        obtain ⟨q, hcq, hq, _⟩ := (mem_nodesBelow_iff_entered ht hvalid).1 hx
        rw [path_of_node? hm, path_of_node? hq]
        exact Path.segments_lt_of_below hroot hcq
      · exact ⟨List.forall_mem_nil _, List.Pairwise.nil⟩
    · -- and what is there at and below it comes before the next child
      refine (pairwise_childPaths ht hp).imp_of_mem fun {c d} hc hd hlt x hx y hy => ?_
      obtain ⟨hhasc, hparentc⟩ := (mem_childPaths_iff ht hp).1 hc
      obtain ⟨hhasd, hparentd⟩ := (mem_childPaths_iff ht hp).1 hd
      exact Path.segments_lt_of_siblings (ht.valid hhasc) (ht.valid hhasd) hparentc hparentd hlt
        (within_of_mem_branch ht (ht.valid hhasc) hx)
        (within_of_mem_branch ht (ht.valid hhasd) hy)

end Tree

/-! ## The copied part -/

namespace OrderedMap

variable {α : Type}

/-- The part of a map whose names start with `start`, as a scan from `start` on finds it. -/
def startingWith (m : OrderedMap α) (start : String) : OrderedMap α :=
  ⟨(m.startingAt start).takeWhile fun o => Path.startsWith start o.1,
    m.ascending.sublist ((List.takeWhile_sublist _).trans (List.dropWhile_sublist _))⟩

theorem keys_startingWith (m : OrderedMap α) (start : String) :
    (m.startingWith start).keys =
      ((m.startingAt start).map (·.1)).takeWhile (Path.startsWith start) := by
  rw [List.takeWhile_map]
  rfl

theorem get?_startingWith (m : OrderedMap α) (start k : String) :
    (m.startingWith start).get? k = if Path.startsWith start k = true then m.get? k else none := by
  have hsub {v : α} (h : (m.startingWith start).get? k = some v) : m.get? k = some v := by
    rw [get?_eq_some_iff] at h ⊢
    exact (List.dropWhile_sublist _).subset ((List.takeWhile_sublist _).subset h)
  have hkey : k ∈ (m.startingWith start).keys ↔ k ∈ m.keys ∧ Path.startsWith start k = true := by
    rw [keys_startingWith, map_fst_startingAt, Path.scan_eq_filter _ m.pairwise_keys,
      List.mem_filter]
  rw [mem_keys, mem_keys] at hkey
  cases hpart : (m.startingWith start).get? k with
  | some v =>
    rw [hpart] at hkey
    rw [if_pos (hkey.1 rfl).2, hsub hpart]
  | none =>
    rw [hpart] at hkey
    split
    · rename_i hstart
      cases hm : m.get? k with
      | none => rfl
      | some v => exact absurd (hkey.2 ⟨by rw [hm]; rfl, hstart⟩) Bool.false_ne_true
    · rfl

end OrderedMap

namespace Tree

variable {t : Tree} {enter : Node → Bool} {p q : String} {n : Node}

/-- The part of the tree at a path and below it. -/
def subtree (t : Tree) (p : String) : Tree :=
  let below := t.cells.startingWith (Path.childStart p)
  { t with cells := (t.cells.get? p).elim below (below.insert p) }

theorem get?_subtree (t : Tree) (p q : String) : (t.subtree p).cells.get? q =
    if q = p ∨ Path.startsWith (Path.childStart p) q = true then t.cells.get? q else none := by
  have hbelow := t.cells.get?_startingWith (Path.childStart p) q
  rw [subtree]
  cases hp : t.cells.get? p with
  | none =>
    rw [Option.elim_none, hbelow]
    by_cases hq : q = p
    · rw [hq, hp, ite_self, ite_self]
    · simp [hq]
  | some c =>
    rw [Option.elim_some, OrderedMap.get?_insert, hbelow]
    by_cases hq : q = p
    · simp [hq, hp]
    · simp [hq]

/-- The children of a path depend only on the cells whose paths start as a child's does. -/
theorem childPaths_congr {t' : Tree}
    (h : ∀ c, Path.startsWith (Path.childStart q) c = true → t'.cells.get? c = t.cells.get? c) :
    t'.childPaths q = t.childPaths q := by
  have hsame : t'.cells.startingWith (Path.childStart q) =
      t.cells.startingWith (Path.childStart q) := by
    refine OrderedMap.ext_get? fun c => ?_
    rw [OrderedMap.get?_startingWith, OrderedMap.get?_startingWith]
    split
    · exact h c ‹_›
    · rfl
  rw [childPaths, childPaths, ← OrderedMap.keys_startingWith, hsame,
    ← OrderedMap.keys_startingWith]

/-- What starts as a child of a path of the part does is in the part. -/
theorem startsWith_of_part {c : String}
    (h : q = p ∨ Path.startsWith (Path.childStart p) q = true)
    (hc : Path.startsWith (Path.childStart q) c = true) :
    Path.startsWith (Path.childStart p) c = true := by
  rcases h with rfl | hq
  · exact hc
  · exact Path.startsWith_trans hq
      (Path.startsWith_trans (Path.startsWith_childStart q) hc)

theorem childPaths_subtree (h : q = p ∨ Path.startsWith (Path.childStart p) q = true) :
    (t.subtree p).childPaths q = t.childPaths q := by
  refine childPaths_congr fun c hc => ?_
  rw [get?_subtree, if_pos (Or.inr (startsWith_of_part h hc))]

/-- At and below its start, the copied part has the nodes of the tree. -/
theorem node?_subtree (h : q = p ∨ Path.startsWith (Path.childStart p) q = true) :
    (t.subtree p).node? q = t.node? q := by
  have hnodeOf : (t.subtree p).nodeOf q = t.nodeOf q := by
    funext c
    rw [nodeOf, nodeOf, childPaths_subtree h]
  rw [node?, node?, get?_subtree, if_pos h, hnodeOf]

theorem nodesBelow_subtree (h : q = p ∨ Path.startsWith (Path.childStart p) q = true) :
    (t.subtree p).nodesBelow enter q = t.nodesBelow enter q := by
  induction q using t.children_induction with
  | step q ih =>
    rw [nodesBelow_eq_flatMap, nodesBelow_eq_flatMap, childPaths_subtree h]
    refine List.flatMap_congr fun c hc => ?_
    have hpart := startsWith_of_part h (mem_childPaths hc).2.2
    rw [branch, branch, node?_subtree (Or.inr hpart), ih c hc (Or.inr hpart)]

/-! ## Walks through reachable trees -/

theorem visit_eq_ok (hp : Path.isValid p = true) (h : t.Has p) (enter : Node → Bool) :
    t.visit p enter = .ok (t.nodesBelow enter p) :=
  congrArg Prod.fst (respond_visit hp h enter)

theorem mem_paths_nodesBelow_iff (ht : t.Sound) (hp : Path.isValid p = true) :
    q ∈ (t.nodesBelow enter p).map Node.path ↔
      t.Has q ∧ Path.Below p q ∧ t.Entered enter p q := by
  rw [List.mem_map]
  constructor
  · rintro ⟨n, hn, rfl⟩
    obtain ⟨q, hpq, hq, hway⟩ := (mem_nodesBelow_iff_entered ht hp).1 hn
    rw [path_of_node? hq]
    exact ⟨has_of_node? hq, hpq, hway⟩
  · rintro ⟨hq, hpq, hway⟩
    obtain ⟨n, hn⟩ := exists_node? hq
    exact ⟨n, (mem_nodesBelow_iff_entered ht hp).2 ⟨q, hpq, hn, hway⟩, path_of_node? hn⟩

theorem entered_iff_get (ht : t.Sound) : t.Entered enter p q ↔
    ∀ a n, Path.Below p a → Path.Below a q → t.get a = .ok n → enter n = true := by
  have hget (a : String) (n : Node) : t.get a = .ok n ↔ t.node? a = some n := by
    constructor
    · intro h
      obtain ⟨c, hc, rfl⟩ := exists_get?_of_get h
      exact node?_eq_some_iff.2 ⟨c, hc, rfl⟩
    · intro h
      exact (get_eq_ok_iff (ht.valid (has_of_node? h))).2 h
  simp only [Entered, hget]

/-- In a tree that calls grow, a walk from a node meets exactly the nodes below it to which
every node on the way is entered, each once and as it is read, in the ascending order of
segments. So does the walk over a copy of the part at and below the start. -/
theorem visit_exact (ht : t.Reachable) (hp : t.Has p) (enter : Node → Bool) :
    ∃ nodes, t.visit p enter = .ok nodes ∧ (t.subtree p).visit p enter = .ok nodes ∧
      (∀ q, q ∈ nodes.map Node.path ↔ t.Has q ∧ Path.Below p q ∧
        ∀ a n, Path.Below p a → Path.Below a q → t.get a = .ok n → enter n = true) ∧
      (nodes.map Node.path).Nodup ∧
      (nodes.map Node.path).Pairwise (fun a b => Path.segments a < Path.segments b) ∧
      ∀ n ∈ nodes, t.get n.path = .ok n := by
  have hsound := ht.sound
  have hvalid := hsound.valid hp
  have horder : ((t.nodesBelow enter p).map Node.path).Pairwise
      fun a b => Path.segments a < Path.segments b :=
    List.pairwise_map.2 (pairwise_nodesBelow hsound hvalid)
  refine ⟨t.nodesBelow enter p, visit_eq_ok hvalid hp enter, ?_, ?_, ?_, horder, ?_⟩
  · have hpart : (t.subtree p).Has p := by
      rw [has_iff_get?, get?_subtree, if_pos (Or.inl rfl)]
      exact has_iff_get?.1 hp
    rw [visit_eq_ok hvalid hpart, nodesBelow_subtree (Or.inl rfl)]
  · intro q
    rw [mem_paths_nodesBelow_iff hsound hvalid, entered_iff_get hsound]
  · refine horder.imp fun hlt heq => ?_
    rw [heq] at hlt
    exact List.lt_irrefl _ hlt
  · intro n hn
    obtain ⟨q, _, hq, _⟩ := (mem_nodesBelow_iff_entered hsound hvalid).1 hn
    rw [path_of_node? hq]
    exact (get_eq_ok_iff (hsound.valid (has_of_node? hq))).2 hq

namespace Dashes

/-- The tree of `/r/a/x`, `/r/a-b` and `/r/c`. In the order of texts `/r/a-b` comes before
`/r/a/x`. -/
def tree : Tree :=
  (((empty.respond (.create "/r/a/x" [])).2.respond (.create "/r/a-b" [])).2.respond
    (.create "/r/c" [])).2

theorem reachable : tree.Reachable := .call _ (.call _ (.call _ .empty))

theorem visit_dashes : tree.Reachable ∧ tree.Has "/r" ∧ ∃ nodes,
    tree.visit "/r" (fun _ => true) = .ok nodes ∧
      (nodes.map Node.path).Pairwise (fun a b => Path.segments a < Path.segments b) ∧
      nodes.map Node.path = ["/r/a", "/r/a/x", "/r/a-b", "/r/c"] ∧ "/r/a-b" < "/r/a/x" := by
  have hr : tree.Has "/r" := by decide +kernel
  have hlist : (tree.nodesBelow (fun _ => true) "/r").map Node.path =
      ["/r/a", "/r/a/x", "/r/a-b", "/r/c"] := by decide +kernel
  obtain ⟨nodes, hvisit, _, _, _, horder, _⟩ := visit_exact reachable hr fun _ => true
  refine ⟨reachable, hr, nodes, hvisit, horder, ?_, by decide⟩
  rw [visit_eq_ok (by decide) hr] at hvisit
  cases hvisit
  exact hlist

end Dashes

end Tree

end Coordination
