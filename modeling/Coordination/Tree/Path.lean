/-!
# Paths of the tree

A path is a slash alone, the root, or slashes each followed by a name. Every other path has
a parent, found by cutting at its last slash. The paths below a path are exactly those
that continue it with a slash, which in the order of paths makes them neighbours.
-/

namespace Coordination.Path

/-- The root. -/
def root : String := "/"

/-- Whether `s` starts with `start`. -/
def startsWith (start s : String) : Bool := start.toList.isPrefixOf s.toList

/-- What follows `start` in a text that starts with it. -/
def after? (start s : String) : Option String :=
  if startsWith start s then some (String.ofList (s.toList.drop start.length)) else none

/-- Whether two slashes stand side by side. -/
def hasEmptyName : List Char → Bool
  | '/' :: '/' :: _ => true
  | _ :: rest => hasEmptyName rest
  | [] => false

/-- Whether the path names a node: the root, or slashes each followed by a name. -/
def isValid (path : String) : Bool :=
  path = root ||
    (path.toList.head? = some '/' && path.toList.getLast? ≠ some '/' &&
      !hasEmptyName path.toList)

/-- The text before the last slash, if there is a slash. -/
def beforeLastSlash : List Char → Option (List Char)
  | [] => none
  | c :: rest =>
    match beforeLastSlash rest with
    | some before => some (c :: before)
    | none => if c = '/' then some [] else none

/-- The text after the last slash; all of it if there is no slash. -/
def afterLastSlash (s : List Char) : List Char := (s.reverse.takeWhile (· ≠ '/')).reverse

/-- The parent of a path. The root has none. -/
def parent? (path : String) : Option String :=
  if path = root then none
  else
    match beforeLastSlash path.toList with
    | some [] => some root
    | some before => some (String.ofList before)
    | none => none

/-- The last name of a path, which is empty for the root. -/
def name (path : String) : String := String.ofList (afterLastSlash path.toList)

/-- What every path below `path` starts with. -/
def childStart (path : String) : String := if path = root then root else path ++ "/"

/-- The part of `path` below `ancestor`, if it is below it. -/
def relativeTo? (ancestor path : String) : Option String :=
  (after? ancestor path).bind fun rest =>
    if ancestor = root then some rest else after? "/" rest

theorem length_beforeLastSlash_lt {s before : List Char}
    (h : beforeLastSlash s = some before) : before.length < s.length := by
  induction s generalizing before with
  | nil => simp [beforeLastSlash] at h
  | cons c rest ih =>
    rw [beforeLastSlash] at h
    cases hr : beforeLastSlash rest with
    | some b =>
      simp only [hr, Option.some.injEq] at h
      subst h
      simpa using ih hr
    | none =>
      simp only [hr] at h
      split at h
      · simp only [Option.some.injEq] at h
        simp [← h]
      · simp at h

/-- A text of one character is the root if it has a slash. -/
theorem eq_root_of_length {path : String} {before : List Char}
    (h : beforeLastSlash path.toList = some before) (hlength : path.length = 1) :
    path = root := by
  rw [← String.length_toList] at hlength
  obtain ⟨c, hc⟩ := List.length_eq_one_iff.1 hlength
  rw [hc] at h
  simp only [beforeLastSlash] at h
  split at h
  · rename_i hslash
    rw [← String.ofList_toList (s := path), hc, hslash]
    rfl
  · simp at h

/-- A parent is shorter than its path. -/
theorem length_parent_lt {path parent : String} (h : parent? path = some parent) :
    parent.length < path.length := by
  rw [parent?] at h
  split at h
  · simp at h
  · rename_i hroot
    cases hb : beforeLastSlash path.toList with
    | none => simp [hb] at h
    | some before =>
      have hlt := length_beforeLastSlash_lt hb
      rw [String.length_toList] at hlt
      cases before with
      | nil =>
        simp only [hb, Option.some.injEq] at h
        subst h
        have hlen : root.length = 1 := rfl
        have hne : path.length ≠ 1 := fun hone => hroot (eq_root_of_length hb hone)
        rw [List.length_nil] at hlt
        omega
      | cons c rest =>
        simp only [hb, Option.some.injEq] at h
        subst h
        rw [String.length_ofList]
        exact hlt

/-- The ancestors of a path, the nearest first. -/
def ancestors (path : String) : List String :=
  match _h : parent? path with
  | some parent => parent :: ancestors parent
  | none => []
termination_by path.length
decreasing_by exact length_parent_lt _h

end Coordination.Path
