import Coordination.OrderedMap
import Coordination.Text.Split
import Coordination.Text.Utf8

/-!
# Files

Directories and files below a root, as a program in a working directory meets them. A path
is walked name by name through directories; what fails on the way is the error of the
access, and an access that fails changes nothing. Creating the directories of a path keeps
those created before a failure. There are no links, and permissions bind nobody: they only
say what can be run as a program.
-/

namespace Coordination

/-- Why an access to files fails. -/
inductive IoError where
  | notFound
  | permissionDenied
  | alreadyExists
  | notADirectory
  | isADirectory
  /-- A text has a character that no path and no argument may have. -/
  | invalidInput
  /-- A name or a path is too long. -/
  | invalidFilename
  | directoryNotEmpty
  | storageFull
  /-- The content is no text. -/
  | invalidData
  deriving DecidableEq, Repr, Inhabited

namespace IoError

/-- The wording of the error, with its number where it has one. -/
def message : IoError → String
  | .notFound => "No such file or directory (os error 2)"
  | .permissionDenied => "Permission denied (os error 13)"
  | .alreadyExists => "File exists (os error 17)"
  | .notADirectory => "Not a directory (os error 20)"
  | .isADirectory => "Is a directory (os error 21)"
  | .invalidInput => "file name contained an unexpected NUL byte"
  | .invalidFilename => "File name too long (os error 36)"
  | .directoryNotEmpty => "Directory not empty (os error 39)"
  | .storageFull => "No space left on device (os error 28)"
  | .invalidData => "stream did not contain valid UTF-8"

end IoError

/-- A file of the system that keeps nothing of what is written to it. -/
inductive Device where
  /-- It is empty and takes everything. -/
  | null
  /-- It has no end of zeros and takes everything. -/
  | zero
  /-- It has no end of zeros and takes nothing. -/
  | full
  deriving DecidableEq, Repr, Inhabited

/-- What is found at a place. -/
inductive FileItem where
  | directory
  | file (content : Bytes)
  | device (d : Device)
  /-- A program of the system. -/
  | program (name : String)
  deriving DecidableEq, Repr, Inhabited

namespace FileItem

/-- What is read from it. Programs are not read. -/
def content : FileItem → Bytes
  | .file content => content
  | _ => []

/-- The permissions that it has at first. -/
def usualMode : FileItem → Nat
  | .directory => 0o755
  | .file _ => 0o644
  | .device _ => 0o666
  | .program _ => 0o755

end FileItem

/-- A place is the list of names from the root on. -/
abbrev Place := List String

/-- Files and directories by place. -/
structure Files where
  items : OrderedMap FileItem
  /-- The permissions that were changed. -/
  modes : OrderedMap Nat
  deriving DecidableEq

/-- A path as it is written. -/
structure FilePath where
  text : String
  absolute : Bool
  /-- The names between slashes, with single and double points. -/
  names : List String
  /-- Whether the path ends with a slash. -/
  closed : Bool
  deriving DecidableEq, Repr, Inhabited

namespace FilePath

/-- The parts of a path. -/
def ofText (text : String) : FilePath where
  text
  absolute := text.toList.head? = some '/'
  names := ((Text.splitAll '/' text.toList).filter (· ≠ [])).map String.ofList
  closed := text.toList.getLast? = some '/'

/-- The names that are more than a single point. -/
def realNames (p : FilePath) : List String := p.names.filter (· ≠ ".")

end FilePath

namespace Files

/-- The working directory. -/
def home : Place := ["work"]

/-- The key of a place. -/
def key (place : Place) : String := String.join (place.map ("/" ++ ·))

/-- What is found at a place. The root is a directory. -/
def item? (f : Files) (place : Place) : Option FileItem :=
  if place = [] then some .directory else f.items.get? (key place)

/-- Put something at a place. -/
def put (f : Files) (place : Place) (item : FileItem) : Files :=
  { f with items := f.items.insert (key place) item }

/-- The directories of the system. -/
def systemDirectories : List Place :=
  [["bin"], ["dev"], ["etc"], ["home"], ["lib"], ["lib64"], ["media"], ["mnt"], ["opt"],
    ["proc"], ["root"], ["run"], ["sbin"], ["srv"], ["sys"], ["tmp"], ["usr"], ["usr", "bin"],
    ["usr", "include"], ["usr", "lib"], ["usr", "local"], ["usr", "local", "bin"],
    ["usr", "local", "sbin"], ["usr", "sbin"], ["usr", "share"], ["var"], ["var", "lib"],
    ["var", "log"], ["var", "tmp"]]

/-- The devices of the system by their names. -/
def systemDevices : List (String × Device) :=
  [("null", .null), ("zero", .zero), ("full", .full)]

/-- The programs of the system. -/
def systemPrograms : List String :=
  ["[", "basename", "cat", "chmod", "cmp", "cp", "cut", "date", "dirname", "echo", "env",
    "expr", "false", "grep", "head", "ls", "mkdir", "mktemp", "mv", "nl", "od", "paste",
    "printenv", "printf", "pwd", "rev", "rm", "rmdir", "sed", "seq", "sh", "dash", "sleep",
    "sort", "tac", "tail", "tee", "test", "touch", "tr", "true", "uniq", "wc", "xargs", "yes"]

/-- The files of the system and an empty working directory. -/
def empty : Files :=
  let bare : Files := ⟨.empty, .empty⟩
  let f := (home :: systemDirectories).foldl (fun f place => f.put place .directory) bare
  let f := systemDevices.foldl (fun f (name, d) => f.put ["dev", name] (.device d)) f
  systemPrograms.foldl (fun f name =>
    (f.put ["bin", name] (.program name)).put ["usr", "bin", name] (.program name)) f

instance : Inhabited Files := ⟨empty⟩

/-- The permissions of what is at a place. -/
def mode (f : Files) (place : Place) : Nat :=
  (f.modes.get? (key place)).getD (((f.item? place).map FileItem.usualMode).getD 0)

/-- Change the permissions of what is at a place. -/
def setMode (f : Files) (place : Place) (mode : Nat) : Files :=
  { f with modes := f.modes.insert (key place) mode }

/-- Forget what is at a place. -/
def drop (f : Files) (place : Place) : Files :=
  ⟨f.items.erase (key place), f.modes.erase (key place)⟩

/-- The number of bytes of a text. -/
def byteLength (s : String) : Nat := (Text.Utf8.encode s).length

/-- Fail if the text cannot be a path at all. -/
def checkText (text : String) : Except IoError Unit :=
  if text = "" then .error .notFound
  else if text.toList.contains '\x00' then .error .invalidInput
  else if 4096 ≤ byteLength text then .error .invalidFilename
  else .ok ()

/-- Fail if the name is too long. -/
def checkName (name : String) : Except IoError Unit :=
  if 255 < byteLength name then .error .invalidFilename else .ok ()

/-- Walk from a directory through directories. -/
def walk (f : Files) (place : Place) : List String → Except IoError Place
  | [] => .ok place
  | name :: rest =>
    if name = "." then f.walk place rest
    else if name = ".." then f.walk place.dropLast rest
    else do
      checkName name
      let next := place ++ [name]
      match f.item? next with
      | some .directory => f.walk next rest
      | some _ => .error .notADirectory
      | none => .error .notFound

/-- Where a path starts, seen from a directory. -/
def startOf (base : Place) (p : FilePath) : Place := if p.absolute then [] else base

/-- The directory that a path's last name is looked up in, seen from a directory, and that
name, if it is one. -/
def locate (f : Files) (base : Place) (p : FilePath) :
    Except IoError (Place × Option String) := do
  checkText p.text
  let place ← f.walk (startOf base p) p.names.dropLast
  match p.names.getLast? with
  | none => .ok (place, none)
  | some name =>
    if name = "." ∨ name = ".." then do
      let place ← f.walk place [name]
      .ok (place, none)
    else .ok (place, some name)

/-! ## Reading -/

/-- Where a path leads, seen from a directory, and what is there. -/
def find (f : Files) (base : Place) (path : String) : Except IoError (Place × FileItem) := do
  let p := FilePath.ofText path
  match ← f.locate base p with
  | (place, none) => .ok (place, .directory)
  | (place, some name) =>
    checkName name
    match f.item? (place ++ [name]) with
    | none => .error .notFound
    | some .directory => .ok (place ++ [name], .directory)
    | some item => if p.closed then .error .notADirectory else .ok (place ++ [name], item)

/-- The content of a file, its path seen from a directory. -/
def readFrom (f : Files) (base : Place) (path : String) : Except IoError Bytes := do
  match ← f.find base path with
  | (_, .directory) => .error .isADirectory
  | (_, item) => .ok item.content

/-- The content of a file. -/
def read (f : Files) (path : String) : Except IoError Bytes := f.readFrom home path

/-- The content of a file as a text. -/
def readText (f : Files) (path : String) : Except IoError String := do
  let content ← f.read path
  match Text.Utf8.decode content with
  | .ok s => .ok s
  | .error _ => .error .invalidData

/-- The names in a directory. -/
def entries (f : Files) (place : Place) : List String :=
  f.items.keys.filterMap fun k =>
    (Text.afterStart (key place ++ "/").toList k.toList).bind fun name =>
      if name.contains '/' then none else some (String.ofList name)

/-- The files below the working directory, by their paths from there. -/
def listing (f : Files) : List (String × Bytes) :=
  f.items.toList.filterMap fun (place, item) =>
    match item, Text.afterStart (key home ++ "/").toList place.toList with
    | .file content, some rest => some (String.ofList rest, content)
    | _, _ => none

/-! ## Writing -/

/-- Write a file, its path seen from a directory. Its own directory must exist. -/
def writeFrom (f : Files) (base : Place) (path : String) (content : Bytes) :
    Except IoError Files := do
  let p := FilePath.ofText path
  match ← f.locate base p with
  | (_, none) => .error .isADirectory
  | (place, some name) =>
    if p.closed then .error .isADirectory
    else
      checkName name
      match f.item? (place ++ [name]) with
      | some .directory => .error .isADirectory
      | some (.device .full) => if content = [] then .ok f else .error .storageFull
      | some (.device _) => .ok f
      | _ => .ok (f.put (place ++ [name]) (.file content))

/-- Write a file. Its directory must exist. -/
def write (f : Files) (path : String) (content : Bytes) : Except IoError Files :=
  f.writeFrom home path content

/-- Create one directory. -/
def createDirectory (f : Files) (start : Place) (names : List String) :
    Except IoError Files := do
  if names.any fun name => name.toList.contains '\x00' then .error .invalidInput
  else if 4096 ≤ byteLength ("/".intercalate names) then .error .invalidFilename
  else
    let place ← f.walk start names.dropLast
    match names.getLast? with
    | none => .error .alreadyExists
    | some name =>
      if name = ".." then .error .alreadyExists
      else do
        checkName name
        match f.item? (place ++ [name]) with
        | some _ => .error .alreadyExists
        | none => .ok (f.put (place ++ [name]) .directory)

/-- Whether the names lead to a directory. -/
def leadsToDirectory (f : Files) (start : Place) (names : List String) : Bool :=
  match f.walk start names with
  | .ok _ => true
  | .error _ => false

/-- Create a directory, given by its names from the last to the first, with the directories
on the way that are missing. One that is already there is not created. -/
def createDirectories (start : Place) :
    List String → Files → Except IoError Unit × Files
  | [], f => (.ok (), f)
  | name :: above, f =>
    let names := (name :: above).reverse
    match f.createDirectory start names with
    | .ok f => (.ok (), f)
    | .error .notFound =>
      match createDirectories start above f with
      | (.error e, f) => (.error e, f)
      | (.ok (), f) =>
        match f.createDirectory start names with
        | .ok f => (.ok (), f)
        | .error e => (if f.leadsToDirectory start names then .ok () else .error e, f)
    | .error e => (if f.leadsToDirectory start names then .ok () else .error e, f)

/-- Write a file, creating the directories of its path. -/
def writeWithDirectories (f : Files) (path : String) (content : Bytes) :
    Except IoError Unit × Files :=
  let p := FilePath.ofText path
  match createDirectories (startOf home p) p.realNames.dropLast.reverse f with
  | (.error e, f) => (.error e, f)
  | (.ok (), f) =>
    match f.write path content with
    | .ok f => (.ok (), f)
    | .error e => (.error e, f)

/-- The working directory with the given files. Files that cannot be written are left out. -/
def ofList (files : List (String × Bytes)) : Files :=
  files.foldl (fun f p => (f.writeWithDirectories p.1 p.2).2) empty

end Files

end Coordination
