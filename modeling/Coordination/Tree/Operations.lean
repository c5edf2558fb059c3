import Coordination.Tree.Basic

/-!
# Calls on the tree

Reading, creating, setting and deleting a node, and the walk over the nodes below one. A
path is checked first, then whether writes to it are refused, then what the tree holds.
Creating a node creates its missing ancestors without values, the topmost first. A walk
meets a node before the nodes below it, in the order of paths among siblings; it ends
because fewer and fewer paths lie below the nodes that it enters.
-/

namespace Coordination

namespace Path

theorem startsWith_iff {start s : String} :
    startsWith start s = true ↔ start.toList <+: s.toList :=
  List.isPrefixOf_iff_prefix

theorem startsWith_trans {a b c : String} (hab : startsWith a b = true)
    (hbc : startsWith b c = true) : startsWith a c = true :=
  startsWith_iff.2 ((startsWith_iff.1 hab).trans (startsWith_iff.1 hbc))

theorem startsWith_childStart (path : String) : startsWith path (childStart path) = true := by
  rw [childStart]
  split
  · rename_i h
    rw [h]
    rfl
  · rw [startsWith_iff, String.toList_append]
    exact List.prefix_append _ _

/-- No path but the root lies below itself. -/
theorem not_startsWith_childStart_self {path : String} (h : path ≠ root) :
    startsWith (childStart path) path = false := by
  rw [Bool.eq_false_iff, ne_eq, startsWith_iff, childStart, if_neg h, String.toList_append]
  intro hpre
  have hlen := hpre.length_le
  have hone : "/".toList.length = 1 := rfl
  rw [List.length_append] at hlen
  omega

end Path

namespace Tree

theorem mem_childPaths {t : Tree} {path child : String} (h : child ∈ t.childPaths path) :
    child ∈ t.cells.keys ∧ child ≠ Path.root ∧
      Path.startsWith (Path.childStart path) child = true := by
  rw [childPaths, List.mem_filter] at h
  obtain ⟨hmem, hcond⟩ := h
  simp only [Bool.and_eq_true, decide_eq_true_eq] at hcond
  refine ⟨?_, hcond.1, ?_⟩
  · obtain ⟨p, hp, rfl⟩ := List.mem_map.1 ((List.takeWhile_sublist _).subset hmem)
    exact List.mem_map.2 ⟨p, (List.dropWhile_sublist _).subset hp, rfl⟩
  · exact List.all_eq_true.1 List.all_takeWhile _ hmem

theorem countP_lt_countP {α : Type} {p q : α → Bool} {l : List α}
    (hpq : ∀ x ∈ l, p x = true → q x = true) {y : α} (hy : y ∈ l) (hq : q y = true)
    (hp : p y = false) : l.countP p < l.countP q := by
  induction l with
  | nil => simp at hy
  | cons x rest ih =>
    have hle : rest.countP p ≤ rest.countP q :=
      List.countP_mono_left fun x hx => hpq x (List.mem_cons_of_mem _ hx)
    rw [List.countP_cons, List.countP_cons]
    rcases List.mem_cons.1 hy with rfl | hy
    · rw [hp, hq]
      simpa using Nat.lt_succ_of_le hle
    · have hlt := ih (fun x hx => hpq x (List.mem_cons_of_mem _ hx)) hy
      cases hpx : p x with
      | false => simpa using Nat.lt_of_lt_of_le hlt (Nat.le_add_right _ _)
      | true => simpa [hpq x List.mem_cons_self hpx] using hlt

/-- Fewer paths lie below a child than below its parent. -/
theorem countBelow_lt {t : Tree} {path child : String} (h : child ∈ t.childPaths path) :
    t.countBelow child < t.countBelow path := by
  obtain ⟨hkey, hroot, hstart⟩ := mem_childPaths h
  refine countP_lt_countP (fun key _ hbelow => ?_) hkey hstart
    (Path.not_startsWith_childStart_self hroot)
  exact Path.startsWith_trans hstart
    (Path.startsWith_trans (Path.startsWith_childStart child) hbelow)

/-! ## Checks -/

/-- Fail unless the path names a node. -/
def checkPath (path : String) : Except TreeError Unit :=
  if Path.isValid path then .ok () else .error (.invalidPath path)

/-- Fail if writes to the path are refused. -/
def checkWritable (t : Tree) (path : String) : Except TreeError Unit :=
  match t.locked with
  | some start =>
    if Path.startsWith start path then
      .error (.backend ("injected failure writing " ++ path))
    else .ok ()
  | none => .ok ()

/-- The cell at a path, which must have one. -/
def cell (t : Tree) (path : String) : Except TreeError Cell :=
  match t.cells.get? path with
  | some c => .ok c
  | none => .error (.notFound path)

/-! ## Reading -/

/-- Read a node. -/
def get (t : Tree) (path : String) : Except TreeError Node := do
  checkPath path
  let c ← t.cell path
  .ok (t.nodeOf path c)

/-- The nodes below a path, entering those that `enter` accepts. -/
def nodesBelow (t : Tree) (enter : Node → Bool) (path : String) : List Node :=
  (t.childPaths path).attach.flatMap fun ⟨child, _h⟩ =>
    match t.node? child with
    | some n => n :: if enter n then t.nodesBelow enter child else []
    | none => []
termination_by t.countBelow path
decreasing_by exact countBelow_lt _h

/-- Walk over the nodes below a path, entering those that `enter` accepts. -/
def visit (t : Tree) (path : String) (enter : Node → Bool) : Except TreeError (List Node) := do
  checkPath path
  let _ ← t.cell path
  .ok (t.nodesBelow enter path)

/-! ## Writing -/

/-- Count a change of the children of a path. -/
def bumpChildren (t : Tree) (path : String) : Tree :=
  { t with cells := t.cells.modify path fun c =>
      { c with childVersion := c.childVersion + 1 } }

/-- Create a single node, and what that causes. -/
def plant (t : Tree) (path : String) (value : Bytes) : Tree × List Event :=
  let planted := { t with cells := t.cells.insert path ⟨value, 0, 0⟩ }
  match Path.parent? path with
  | some parent =>
    (planted.bumpChildren parent, [⟨.childrenChanged, parent⟩, ⟨.created, path⟩])
  | none => (planted, [⟨.created, path⟩])

/-- Create nodes without values, the last of them first. -/
def plantAll (t : Tree) : List String → Tree × List Event
  | [] => (t, [])
  | path :: rest =>
    let (grown, above) := t.plantAll rest
    let (planted, events) := grown.plant path []
    (planted, above ++ events)

/-- The ancestors that a new node at the path lacks, the nearest first. -/
def missingAncestors (t : Tree) (path : String) : List String :=
  (Path.ancestors path).takeWhile fun ancestor => !t.cells.contains ancestor

/-- Create a node and its missing ancestors. -/
def create (t : Tree) (path : String) (value : Bytes) : Except TreeError (Written Node) := do
  checkPath path
  t.checkWritable path
  if t.cells.contains path then .error (.alreadyExists path)
  else
    let (grown, above) := t.plantAll (t.missingAncestors path)
    let (planted, events) := grown.plant path value
    .ok ⟨planted.nodeOf path ⟨value, 0, 0⟩, planted, above ++ events⟩

/-- Replace the value of a node. -/
def set (t : Tree) (path : String) (value : Bytes) : Except TreeError (Written Node) := do
  checkPath path
  t.checkWritable path
  let c ← t.cell path
  let changed : Cell := { c with value := value, version := c.version + 1 }
  let written := { t with cells := t.cells.insert path changed }
  .ok ⟨written.nodeOf path changed, written, [⟨.changed, path⟩]⟩

/-- Delete a node without children. The root cannot be deleted. -/
def delete (t : Tree) (path : String) : Except TreeError (Written Unit) := do
  checkPath path
  match Path.parent? path with
  | none => .error (.invalidPath path)
  | some parent =>
    t.checkWritable path
    let _ ← t.cell path
    if t.childPaths path ≠ [] then .error (.notEmpty path)
    else
      let cut := { t with cells := t.cells.erase path }
      .ok ⟨(), cut.bumpChildren parent, [⟨.deleted, path⟩, ⟨.childrenChanged, parent⟩]⟩

/-- Refuse writes to the paths that start with `start`, and to no others. -/
def lock (t : Tree) (start : String) : Tree := { t with locked := some start }

/-- Refuse no writes. -/
def unlock (t : Tree) : Tree := { t with locked := none }

end Tree

end Coordination
