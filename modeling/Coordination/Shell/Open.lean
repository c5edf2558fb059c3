import Coordination.Files.Change
import Coordination.Shell.Process

/-!
# Opening files

What redirections and programs open, and where programs are found. The name of a command
with a slash is a path; any other name is looked for in the directories of `PATH`, where
only a file that may be run counts.
-/

namespace Coordination.Shell

namespace Sh

/-- Open what is at a path, or make a file there. -/
def openFile (access : Access) (path : String) : Sh (Except IoError Nat) := do
  let p ← process
  let h := (← get).host
  let name := toText path
  let writes := access ≠ .input
  let channel (place : Place) : FileItem → Channel := fun
    | .directory => .directory place
    | .device d => .device d
    | _ => .file place
  let opened (h : Host) (place : Place) (item : FileItem) : Sh (Except IoError Nat) := do
    let file : OpenFile :=
      ⟨channel place item, 0, access = .input || access = .update, writes, access = .append⟩
    let (number, h) := h.add file
    modify fun w => { w with host := h }
    return .ok number
  match h.files.find p.place name with
  | .ok (place, .directory) =>
    if writes then return .error .isADirectory else opened h place .directory
  | .ok (place, item) =>
    let empties := access = .output || access = .overwrite
    let files := match item with
      | .file _ => if empties then h.files.put place (.file []) else h.files
      | _ => h.files
    opened { h with files } place item
  | .error .notFound =>
    if !writes then return .error .notFound
    else
      match h.files.writeFrom p.place name [] with
      | .error e => return .error e
      | .ok files =>
        match files.find p.place name with
        | .error e => return .error e
        | .ok (place, item) =>
          let mode := 0o666 &&& (0o777 ^^^ p.mask)
          let files := if mode = files.mode place then files else files.setMode place mode
          opened { h with files } place item
  | .error e => return .error e

/-- Open an input that holds a text. -/
def openText (text : String) : Sh Nat :=
  onHost fun h =>
    let ((reading, _), h) := h.addPipe (toBytes text)
    (reading, h)

/-! ## Programs -/

/-- The directories in which programs are looked for. -/
def searchPath : Sh (List String) := do
  return match ← value? "PATH" with
    | some path => (Text.splitAll ':' path.toList).map String.ofList
    | none => []

/-- A name in a directory of the search path. -/
def inDirectory (directory name : String) : String :=
  if directory = "" then name else directory ++ "/" ++ name

/-- Whether what is at a path may be run. -/
def runnable (path : String) : Sh (Except IoError Bool) := do
  let p ← process
  let files ← files
  match files.find p.place (toText path) with
  | .error e => return .error e
  | .ok (place, item) =>
    return .ok (item ≠ .directory && files.mode place &&& 0o111 ≠ 0)

/-- The path of the program with a name, or why there is none. -/
def findIn (name : String) (why : IoError) : List String → Sh (Except IoError String)
  | [] => return .error why
  | directory :: rest => do
    let path := inDirectory directory name
    match ← runnable path with
    | .ok true => return .ok path
    | .ok false => findIn name .permissionDenied rest
    | .error .notFound => findIn name why rest
    | .error .notADirectory => findIn name why rest
    | .error e => findIn name e rest

/-- The path of the program that a name stands for, or why there is none. -/
def findProgram (name : String) : Sh (Except IoError String) := do
  if name.toList.contains '/' then return .ok name
  else findIn name .notFound (← searchPath)

/-- The wording of why a program cannot be run. -/
def whyNotRun : IoError → String
  | .notFound => "not found"
  | .notADirectory => "not found"
  | e => reason e

end Sh

end Coordination.Shell
