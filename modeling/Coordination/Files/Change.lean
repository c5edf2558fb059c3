import Coordination.Files.Basic

/-!
# Changing directories

Making, removing, copying and moving what is in directories. Paths are seen from a
directory, and an access that fails changes nothing.
-/

namespace Coordination.Files

/-- The place that a path names for something new or old, whose directory must exist. It has
no name of its own if the path ends in a point or at the root. -/
def target (f : Files) (base : Place) (path : String) :
    Except IoError (Place × Option FileItem × Bool) := do
  let p := FilePath.ofText path
  match ← f.locate base p with
  | (place, none) => .ok (place, some .directory, false)
  | (place, some name) =>
    checkName name
    .ok (place ++ [name], f.item? (place ++ [name]), true)

/-- Whether there is anything at the path. -/
def hasItem (f : Files) (base : Place) (path : String) : Bool :=
  match f.find base path with
  | .ok _ => true
  | .error _ => false

/-- Whether one place is another one or below it. -/
def isWithin (outer inner : Place) : Bool := outer.isPrefixOf inner

/-- The places below a place, with what is there. -/
def below (f : Files) (place : Place) : List (String × FileItem) :=
  f.items.toList.filterMap fun (k, item) =>
    (Text.afterStart (key place ++ "/").toList k.toList).map fun rest =>
      (String.ofList rest, item)

/-- Make a directory. -/
def makeDirectory (f : Files) (base : Place) (path : String) : Except IoError Files := do
  match ← f.target base path with
  | (_, some _, _) => .error .alreadyExists
  | (place, none, _) => .ok (f.put place .directory)

/-- Remove a directory that is empty. -/
def removeDirectory (f : Files) (base : Place) (path : String) : Except IoError Files := do
  match ← f.find base path with
  | (place, .directory) =>
    if (FilePath.ofText path).names.getLast? = some "." then .error .invalidInput
    else if (f.below place).isEmpty then .ok (f.drop place) else .error .directoryNotEmpty
  | _ => .error .notADirectory

/-- Remove what is at a place and below it. -/
def removeAll (f : Files) (place : Place) : Files :=
  let inside := f.below place
  let f := inside.foldl (fun f (rest, _) =>
    ⟨f.items.erase (key place ++ "/" ++ rest), f.modes.erase (key place ++ "/" ++ rest)⟩) f
  f.drop place

/-- Put at a place what is at another one, with all below it. -/
def copyAll (f : Files) (source destination : Place) : Files :=
  match f.item? source with
  | none => f
  | some item =>
    let copied := (f.put destination item).setMode destination (f.mode source)
    (f.below source).foldl (fun g (rest, item) =>
      let mode := f.modes.get? (key source ++ "/" ++ rest)
      let k := key destination ++ "/" ++ rest
      ⟨g.items.insert k item, match mode with
        | some mode => g.modes.insert k mode
        | none => g.modes⟩) copied

/-- Move what is at a place. -/
def moveAll (f : Files) (source destination : Place) : Files :=
  if source = destination then f
  else ((f.removeAll destination).copyAll source destination).removeAll source

end Coordination.Files
