import Coordination.Shell.Mode
import Coordination.Shell.Utility.Basic

/-!
# Utilities for places

Making, removing, copying, moving and listing files and directories.
-/

namespace Coordination.Shell

namespace Utility

/-- The directory that paths are seen from. -/
def base : Sh Place := do return (← Sh.process).place

/-- Put changed files in place. -/
def setFiles (files : Files) : Sh Unit :=
  Sh.modifyHost fun h => { h with files }

/-- Do something for each operand, and give the status: failures do not stop it. -/
def forEach (operands : List String) (act : String → Sh Bool) : Sh Nat := do
  let mut status := 0
  for operand in operands do
    if !(← act operand) then status := 1
  return status

/-- Report that something cannot be done with a path. -/
def cannot (name what path : String) (e : IoError) : Sh Bool := do
  say name (what ++ " " ++ quoteAlways path ++ ": " ++ reason e)
  return false

/-- The last name of a path. -/
def lastName (path : String) : String :=
  match (FilePath.ofText path).names.getLast? with
  | some name => name
  | none => if path = "" then "" else "/"

/-- The path of a name in a directory. -/
def pathIn (directory name : String) : String :=
  if directory.endsWith "/" then directory ++ name else directory ++ "/" ++ name

/-! ## Making -/

/-- Whether a text is a time in digits: a month, a day, an hour and a minute, maybe behind
a year and with seconds behind a point. -/
def isStamp (text : String) : Bool :=
  let s := text.toList
  let digits := s.takeWhile isDigit
  let seconds := s.drop digits.length
  let number (s : List Char) : Nat := (readDigits 10 0 s).1
  let last := digits.drop (digits.length - 8)
  [8, 10, 12].contains digits.length &&
    (seconds.isEmpty || (seconds.head? = some '.' && seconds.length = 3 &&
      (seconds.drop 1).all isDigit && number (seconds.drop 1) ≤ 60)) &&
    (let month := number (last.take 2); 1 ≤ month && month ≤ 12) &&
    (let day := number ((last.drop 2).take 2); 1 ≤ day && day ≤ 31) &&
    number ((last.drop 4).take 2) ≤ 23 && number (last.drop 6) ≤ 59

/-- Whether a text seems to be a date: it has a number or names a day. -/
def isDate (text : String) : Bool :=
  text.toList.any isDigit || (text.toList.all isBlank) ||
    ["now", "today", "tomorrow", "yesterday", "monday", "tuesday", "wednesday", "thursday",
      "friday", "saturday", "sunday", "noon", "midnight", "mon", "tue", "wed", "thu", "fri",
      "sat", "sun"].contains (String.ofList (text.toList.map Char.toLower))

/-- The options of `touch`. -/
def touchSpec : Spec where
  letters := [('a', .nothing), ('c', .nothing), ('d', .argument), ('f', .nothing),
    ('h', .nothing), ('m', .nothing), ('r', .argument), ('t', .argument)]
  words := [("date", 'd', .argument), ("no-create", 'c', .nothing),
    ("no-dereference", 'h', .nothing), ("reference", 'r', .argument), ("time", 'T', .argument)]
  status := 1
  usage := ""

/-- Make empty files where nothing is. -/
def touch : Utility := fun name args => do
  let g ← given name touchSpec args
  match g.last? 'r' with
  | some path => do
    match (← Sh.files).find (← base) (toText path) with
    | .ok _ => pure ()
    | .error e =>
      die name ("failed to get attributes of " ++ quoteAlways path ++ ": " ++ reason e) 1
  | none => pure ()
  for (letter, text) in g.options do
    let wrong := if letter = 't' then !isStamp text else letter = 'd' && !isDate text
    if wrong then die name ("invalid date format " ++ quoteWord text) 1
  if g.operands.isEmpty then misuse name "missing file operand" 1
  else forEach g.operands fun path => do
    let files ← Sh.files
    let text := toText path
    if path = "-" then return true
    else
      match files.find (← base) text with
      | .ok _ => return true
      | .error e =>
        let isReached : Bool := match files.locate (← base) (FilePath.ofText text) with
          | .ok _ => true
          | .error _ => false
        if g.has 'c' then
          if e = .notFound then return true else cannot name "setting times of" path e
        else if g.has 'h' ∨ (path.endsWith "/" ∧ isReached) then
          cannot name "setting times of" path e
        else
          match ← Sh.openFile .append path with
          | .ok _ => return true
          | .error e => cannot name "cannot touch" path e

/-- The options of `mkdir`. -/
def mkdirSpec : Spec where
  letters := [('m', .argument), ('p', .nothing), ('v', .nothing), ('Z', .nothing)]
  words := [("mode", 'm', .argument), ("parents", 'p', .nothing), ("verbose", 'v', .nothing)]
  status := 1
  usage := ""

/-- Make the directories of a path, from the first name on. -/
def makeParents (name : String) (verbose : Bool) (start : String) :
    List String → Sh Bool
  | [] => return true
  | part :: parts => do
    let path := start ++ part
    let files ← Sh.files
    let place ← base
    match files.find place (toText path) with
    | .ok (_, .directory) => makeParents name verbose (path ++ "/") parts
    | .ok _ =>
      cannot name "cannot create directory" path
        (if parts.isEmpty then .alreadyExists else .notADirectory)
    | .error .notFound =>
      match files.makeDirectory place (toText path) with
      | .ok files => do
        setFiles files
        if verbose then put name (name ++ ": created directory " ++ quoteAlways path ++ "\n")
        makeParents name verbose (path ++ "/") parts
      | .error e => cannot name "cannot create directory" path e
    | .error e => cannot name "cannot create directory" path e

/-- Make directories. -/
def mkdir : Utility := fun name args => do
  let g ← given name mkdirSpec args
  if g.operands.isEmpty then misuse name "missing operand" 1
  else
    let mode ← match g.last? 'm' with
      | none => pure none
      | some text =>
        match Mode.change text 0 true 0o777 with
        | some mode => pure (some mode)
        | none => die name ("invalid mode " ++ quoteWord text) 1
    forEach g.operands fun path => do
      let made ← if g.has 'p' ∧ path ≠ "" then do
          let p := FilePath.ofText (toText path)
          makeParents name (g.has 'v') (if p.absolute then "/" else "") (p.names.map ofText)
        else do
          match (← Sh.files).makeDirectory (← base) (toText path) with
          | .ok files => do
            setFiles files
            if g.has 'v' then put name (name ++ ": created directory " ++ quoteAlways path ++ "\n")
            pure true
          | .error e => cannot name "cannot create directory" path e
      match mode, (← Sh.files).find (← base) (toText path) with
      | some mode, .ok (place, _) => setFiles ((← Sh.files).setMode place mode)
      | _, _ => pure ()
      return made

/-! ## Removing -/

/-- The options of `rmdir`. -/
def rmdirSpec : Spec where
  letters := [('p', .nothing), ('v', .nothing)]
  words := [("ignore-fail-on-non-empty", 'i', .nothing), ("parents", 'p', .nothing),
    ("verbose", 'v', .nothing)]
  status := 1
  usage := ""

/-- Remove empty directories, each given by its path. -/
def removeEach (name : String) (g : Given) : List String → Sh Bool
  | [] => return true
  | path :: paths => do
    if g.has 'v' then put name (name ++ ": removing directory, " ++ quoteAlways path ++ "\n")
    match (← Sh.files).removeDirectory (← base) (toText path) with
    | .ok files => do
      setFiles files
      removeEach name g paths
    | .error .directoryNotEmpty =>
      if g.has 'i' then return true
      else cannot name "failed to remove" path .directoryNotEmpty
    | .error e => cannot name "failed to remove" path e

/-- Remove directories that are empty. -/
def rmdir : Utility := fun name args => do
  let g ← given name rmdirSpec args
  if g.operands.isEmpty then misuse name "missing operand" 1
  else forEach g.operands fun path => do
    let parents := if g.has 'p' then
        let names := (FilePath.ofText path).names
        let start := if path.startsWith "/" then "/" else ""
        ((List.range names.length).drop 1).reverse.map fun n =>
          start ++ "/".intercalate (names.take n)
      else []
    removeEach name g (path :: parents)

/-- The options of `rm`. -/
def rmSpec : Spec where
  letters := [('d', .nothing), ('f', .nothing), ('i', .nothing), ('I', .nothing),
    ('r', .nothing), ('R', .nothing), ('v', .nothing)]
  words := [("dir", 'd', .nothing), ("force", 'f', .nothing), ("recursive", 'r', .nothing),
    ("verbose", 'v', .nothing), ("interactive", 'I', .optional),
    ("one-file-system", 'o', .nothing), ("no-preserve-root", 'N', .nothing),
    ("preserve-root", 'P', .optional)]
  status := 1
  usage := ""

/-- Remove what is at a path. -/
def removeOne (name : String) (g : Given) (path : String) : Sh Bool := do
  let files ← Sh.files
  let place ← base
  let recursive := g.has 'r' || g.has 'R'
  let last := (FilePath.ofText path).names.getLast?
  let tell (what : String) : Sh Bool := do
    if g.has 'v' then put name ("removed " ++ what ++ quoteAlways path ++ "\n")
    return true
  match files.find place (toText path) with
  | .error .notFound =>
    if g.has 'f' then return true else cannot name "cannot remove" path .notFound
  | .error .notADirectory =>
    if g.has 'f' then return true else cannot name "cannot remove" path .notADirectory
  | .error e => cannot name "cannot remove" path e
  | .ok (at_, .directory) =>
    if recursive ∧ (last = some "." ∨ last = some "..") then
      say name ("refusing to remove '.' or '..' directory: skipping " ++ quoteAlways path)
      return false
    else if recursive ∧ at_ = [] then
      say name "it is dangerous to operate recursively on '/'"
      say name "use --no-preserve-root to override this failsafe"
      return false
    else if recursive then
      setFiles (files.removeAll at_)
      tell "directory "
    else if g.has 'd' then
      match files.removeDirectory place (toText path) with
      | .ok files => do
        setFiles files
        tell "directory "
      | .error e => cannot name "cannot remove" path e
    else cannot name "cannot remove" path .isADirectory
  | .ok (at_, _) => do
    if g.has 'i' then
      Sh.write 2 (name ++ ": remove regular file " ++ quoteAlways path ++ "? ")
      return true
    else
      setFiles (files.drop at_)
      tell ""

/-- Remove files. -/
def rm : Utility := fun name args => do
  let g ← given name rmSpec args
  if g.operands.isEmpty then
    if g.has 'f' then return 0 else misuse name "missing operand" 1
  else forEach g.operands (removeOne name g)

/-! ## Copying and moving -/

/-- The options of `cp`. -/
def cpSpec : Spec where
  letters := [('a', .nothing), ('b', .nothing), ('d', .nothing), ('f', .nothing),
    ('H', .nothing), ('i', .nothing), ('l', .nothing), ('L', .nothing), ('n', .nothing),
    ('p', .nothing), ('P', .nothing), ('r', .nothing), ('R', .nothing), ('s', .nothing),
    ('S', .argument), ('t', .argument), ('T', .nothing), ('u', .nothing), ('v', .nothing),
    ('x', .nothing)]
  words := [("archive", 'a', .nothing), ("force", 'f', .nothing), ("no-clobber", 'n', .nothing),
    ("preserve", 'p', .optional), ("recursive", 'r', .nothing), ("update", 'u', .optional),
    ("target-directory", 't', .argument), ("no-target-directory", 'T', .nothing),
    ("verbose", 'v', .nothing)]
  status := 1
  usage := ""

/-- The options of `mv`. -/
def mvSpec : Spec where
  letters := [('b', .nothing), ('f', .nothing), ('i', .nothing), ('n', .nothing),
    ('S', .argument), ('t', .argument), ('T', .nothing), ('u', .nothing), ('v', .nothing)]
  words := [("force", 'f', .nothing), ("no-clobber", 'n', .nothing), ("update", 'u', .optional),
    ("target-directory", 't', .argument), ("no-target-directory", 'T', .nothing),
    ("verbose", 'v', .nothing)]
  status := 1
  usage := ""

/-- Whether a directory is at a path. -/
def isDirectory (path : String) : Sh Bool := do
  return match (← Sh.files).find (← base) (toText path) with
    | .ok (_, .directory) => true
    | _ => false

/-- The sources and destinations of a copy or a move. -/
def transfers (name : String) (g : Given) : Sh (List (String × String)) := do
  let into (directory : String) (sources : List String) : List (String × String) :=
    sources.map fun source => (source, pathIn directory (lastName source))
  match g.last? 't', g.operands.reverse with
  | some directory, sources =>
    if sources.isEmpty then misuse name "missing file operand" 1
    else if ← isDirectory directory then return into directory sources.reverse
    else noTarget directory
  | none, [] => misuse name "missing file operand" 1
  | none, [source] =>
    misuse name ("missing destination file operand after " ++ quoteAlways source) 1
  | none, [destination, source] =>
    if !g.has 'T' ∧ (← isDirectory destination) then return into destination [source]
    else return [(source, destination)]
  | none, directory :: sources =>
    if g.has 'T' then misuse name ("extra operand " ++ quoteWord directory) 1
    else if ← isDirectory directory then return into directory sources.reverse
    else noTarget directory
where
  /-- Report that a target is no directory. -/
  noTarget (directory : String) : Sh (List (String × String)) := do
    match (← Sh.files).find (← base) (toText directory) with
    | .ok _ => die name ("target " ++ quoteAlways directory ++ ": Not a directory") 1
    | .error e => die name ("target " ++ quoteAlways directory ++ ": " ++ reason e) 1

/-- Copy or move what is at a path to another one. -/
def transfer (name : String) (moves : Bool) (g : Given) (source destination : String) :
    Sh Bool := do
  let files ← Sh.files
  let place ← base
  let recursive := moves || g.has 'r' || g.has 'R' || g.has 'a'
  match files.find place (toText source) with
  | .error e => cannot name "cannot stat" source e
  | .ok (at_, item) =>
    let there := files.find place (toText destination)
    let isDirectory := item = .directory
    match there with
    | .ok (goal, old) =>
      if isDirectory ∧ !recursive then
        say name ("-r not specified; omitting directory " ++ quoteAlways source)
        return false
      else if goal = at_ then
        if moves ∧ isDirectory then
          say name ("cannot move " ++ quoteAlways source ++ " to a subdirectory of itself, " ++
            quoteAlways destination)
        else
          say name (quoteAlways source ++ " and " ++ quoteAlways destination ++
            " are the same file")
        return false
      else if isDirectory ∧ old ≠ .directory then
        say name ("cannot overwrite non-directory " ++ quoteAlways destination ++
          " with directory " ++ quoteAlways source)
        return false
      else if !isDirectory ∧ old = .directory then
        say name ("cannot overwrite directory " ++ quoteAlways destination ++
          " with non-directory")
        return false
      else if isDirectory ∧ Files.isWithin at_ goal then within
      else if g.has 'n' then return true
      else if isDirectory then
        if moves then
          if (files.below goal).isEmpty then finish (files.moveAll at_ goal)
          else
            say name ("cannot overwrite " ++ quoteAlways destination ++ ": Directory not empty")
            return false
        else finish (files.copyAll at_ goal)
      else
        match old with
        | .device .full =>
          say name ("error writing " ++ quoteAlways destination ++ ": No space left on device")
          return false
        | .device _ => finish files
        | _ =>
          if moves then finish (files.moveAll at_ goal)
          else finish (files.put goal (.file item.content))
    | .error .notFound =>
      if isDirectory ∧ !recursive then
        say name ("-r not specified; omitting directory " ++ quoteAlways source)
        return false
      else
        match files.target place (toText destination) with
        | .ok (goal, _, _) =>
          if isDirectory ∧ Files.isWithin at_ goal then within
          else if !isDirectory ∧ destination.endsWith "/" then
            refuse .notADirectory
          else if moves then finish (files.moveAll at_ goal)
          else if isDirectory then finish (files.copyAll at_ goal)
          else finish ((files.put goal (.file item.content)).setMode goal (files.mode at_))
        | .error e => refuse e
    | .error e =>
      if moves then refuse e else cannot name "cannot stat" destination e
where
  /-- Leave changed files, and tell what was done. -/
  finish (files : Files) : Sh Bool := do
    setFiles files
    if g.has 'v' then
      put name ((if moves then "renamed " else "") ++ quoteAlways source ++ " -> " ++
        quoteAlways destination ++ "\n")
    return true
  /-- Refuse to put a directory into itself. -/
  within : Sh Bool := do
    say name (if moves then
        "cannot move " ++ quoteAlways source ++ " to a subdirectory of itself, " ++
          quoteAlways destination
      else
        "cannot copy a directory, " ++ quoteAlways source ++ ", into itself, " ++
          quoteAlways destination)
    return false
  /-- Report that nothing can be made at the destination. -/
  refuse (e : IoError) : Sh Bool := do
    if moves then
      say name ("cannot move " ++ quoteAlways source ++ " to " ++ quoteAlways destination ++
        ": " ++ reason e)
      return false
    else
      let directory := match (← Sh.files).find (← base) (toText source) with
        | .ok (_, .directory) => true
        | _ => false
      cannot name (if directory then "cannot create directory" else "cannot create regular file")
        destination e

/-- Copy files. -/
def cp : Utility := fun name args => do
  let g ← given name cpSpec args
  let pairs ← transfers name g
  let mut status := 0
  for (source, destination) in pairs do
    if !(← transfer name false g source destination) then status := 1
  return status

/-- Move files. -/
def mv : Utility := fun name args => do
  let g ← given name mvSpec args
  let pairs ← transfers name g
  let mut status := 0
  for (source, destination) in pairs do
    if !(← transfer name true g source destination) then status := 1
  return status

/-! ## Permissions -/

/-- Whether an argument of `chmod` that starts with a hyphen is a mode. -/
def isMode (arg : String) : Bool :=
  arg.length > 1 && (arg.toList.drop 1).all fun c => "rwxXstugo,+-=01234567".toList.contains c

/-- The options of `chmod`. -/
def chmodSpec : Spec where
  letters := [('c', .nothing), ('f', .nothing), ('R', .nothing), ('v', .nothing)]
  words := [("changes", 'c', .nothing), ("quiet", 'f', .nothing), ("silent", 'f', .nothing),
    ("recursive", 'R', .nothing), ("verbose", 'v', .nothing), ("reference", 'r', .argument)]
  status := 1
  usage := ""

/-- Change permissions. -/
def chmod : Utility := fun name args => do
  let (before, behind) := args.span (· ≠ "--")
  let (modes, others) := before.partition fun arg => arg.startsWith "-" && isMode arg
  let others := others ++ behind
  let g ← given name chmodSpec others
  let (mode?, operands) := match modes, g.operands with
    | [], mode :: operands => (some mode, operands)
    | [], [] => (none, [])
    | modes, operands => (some (",".intercalate modes), operands)
  match mode?, operands with
  | none, _ => misuse name "missing operand" 1
  | some mode, [] => misuse name ("missing operand after " ++ quoteWord mode) 1
  | some text, operands => do
    let mask := (← Sh.process).mask
    if (Mode.change text mask false 0).isNone then
      misuse name ("invalid mode: " ++ quoteWord text) 1
    else forEach operands fun path => do
      let files ← Sh.files
      match files.find (← base) (toText path) with
      | .error e => if g.has 'f' then return false else cannot name "cannot access" path e
      | .ok (place, item) => do
        let change (files : Files) (place : Place) (item : FileItem) : Files :=
          match Mode.change text mask (item = .directory) (files.mode place) with
          | some mode => files.setMode place mode
          | none => files
        let changed := change files place item
        setFiles (if g.has 'R' then
            (files.below place).foldl (fun files (rest, item) =>
              change files (place ++ (FilePath.ofText rest).names) item) changed
          else changed)
        return true

/-! ## Listing -/

/-- The options of `ls`. -/
def lsSpec : Spec where
  letters := "aAbBcCdDfFgGhHiIklLmnNopqQrRsStTuUvwxXZ1".toList.map fun c =>
    (c, if c = 'I' || c = 'w' || c = 'T' then .argument else .nothing)
  words := [("all", 'a', .nothing), ("almost-all", 'A', .nothing), ("directory", 'd', .nothing),
    ("classify", 'F', .optional), ("reverse", 'r', .nothing), ("recursive", 'R', .nothing),
    ("color", 'k', .optional), ("format", 'k', .argument), ("sort", 'k', .argument)]
  status := 2
  usage := ""

/-- The entry of a name in a listing. -/
def listedName (g : Given) (name : String) (item : FileItem) : String :=
  match item with
  | .directory => if g.has 'F' || g.has 'p' then name ++ "/" else name
  | .program _ => if g.has 'F' then name ++ "*" else name
  | _ => name

/-- Sort names, in reverse order if that is asked for. -/
def sortNames (g : Given) (names : List (String × FileItem)) : List (String × FileItem) :=
  let sorted := names.mergeSort fun a b => a.1 ≤ b.1
  if g.has 'r' then sorted.reverse else sorted

/-- A listing of names. -/
def listing (g : Given) (names : List (String × FileItem)) : String :=
  let entries := (sortNames g names).map fun (name, item) => listedName g name item
  if g.has 'm' then
    if entries.isEmpty then "" else ", ".intercalate entries ++ "\n"
  else unlines entries

/-- The names that a listing of a directory shows. -/
def shownNames (g : Given) (files : Files) (place : Place) : List (String × FileItem) :=
  let names := (files.entries place).filterMap fun name =>
    (files.item? (place ++ [name])).map fun item => (ofText name, item)
  if g.has 'a' || g.has 'f' then (".", .directory) :: ("..", .directory) :: names
  else if g.has 'A' then names
  else names.filter fun p => !p.1.startsWith "."

/-- The directories below a place whose listings follow, with their paths. -/
def listingsBelow (g : Given) (files : Files) : Nat → String → Place → List (String × Place)
  | 0, path, place => [(path, place)]
  | n + 1, path, place =>
    let inner := (sortNames g (shownNames g files place)).filter fun p =>
      p.2 = .directory && p.1 ≠ "." && p.1 ≠ ".."
    (path, place) :: inner.flatMap fun p =>
      listingsBelow g files n (pathIn path p.1) (place ++ [toText p.1])

/-- List files and directories. -/
def ls : Utility := fun name args => do
  let g ← given name lsSpec args
  let files ← Sh.files
  let place ← base
  let operands := if g.operands.isEmpty then ["."] else g.operands
  let mut status := 0
  let mut plain : List (String × FileItem) := []
  let mut directories : List (String × Place) := []
  for path in operands do
    match files.find place (toText path) with
    | .error e => do
      say name ("cannot access " ++ quoteAlways path ++ ": " ++ reason e)
      status := 2
    | .ok (at_, .directory) =>
      if g.has 'd' then plain := plain ++ [(path, .directory)]
      else directories := directories ++ [(path, at_)]
    | .ok (_, item) => plain := plain ++ [(path, item)]
  let sorted := (directories.mergeSort fun a b => a.1 ≤ b.1)
  let sorted := if g.has 'r' then sorted.reverse else sorted
  let all := if g.has 'R' then
      sorted.flatMap fun (path, place) => listingsBelow g files 64 path place
    else sorted
  let headed := g.has 'R' || operands.length > 1
  let blocks := all.map fun (path, place) =>
    (if headed then path ++ ":\n" else "") ++ listing g (shownNames g files place)
  let blocks := if plain.isEmpty then blocks else listing g plain :: blocks
  match ← Sh.writeBytes 1 (toBytes ("\n".intercalate blocks)) with
  | .ok () => return status
  | .error e => die name ("write error: " ++ e.message) 2

/-! ## Paths -/

/-- A path without its last name. -/
def directoryOf (path : String) : String :=
  let trim (s : List Char) : List Char := s.dropWhile (· = '/')
  let reversed := trim path.toList.reverse
  if reversed.isEmpty then (if path.startsWith "/" then "/" else ".")
  else
    let rest := reversed.dropWhile (· ≠ '/')
    if rest.isEmpty then "."
    else
      let directory := (trim rest).reverse
      if directory.isEmpty then "/" else String.ofList directory

/-- Write the directories of paths. -/
def dirname : Utility := fun name args => do
  let g ← given name ⟨[('z', .nothing)], [("zero", 'z', .nothing)], 1, ""⟩ args
  if g.operands.isEmpty then misuse name "missing operand" 1
  else
    put name (unlines (g.operands.map directoryOf))
    return 0

/-- Write the last names of paths. -/
def basename : Utility := fun name args => do
  let g ← givenFirst name ⟨[('a', .nothing), ('s', .argument), ('z', .nothing)],
    [("multiple", 'a', .nothing), ("suffix", 's', .argument), ("zero", 'z', .nothing)], 1, ""⟩ args
  let strip (suffix path : String) : String :=
    let last := lastName path
    if suffix ≠ "" ∧ last ≠ suffix ∧ last.endsWith suffix then
      String.ofList (last.toList.take (last.length - suffix.length))
    else last
  let many := g.has 'a' || g.has 's'
  match g.operands with
  | [] => misuse name "missing operand" 1
  | path :: rest =>
    if many then put name (unlines (g.operands.map (strip ((g.last? 's').getD ""))))
    else
      match rest with
      | _ :: extra :: _ => misuse name ("extra operand " ++ quoteWord extra) 1
      | rest => put name (strip (rest.headD "") path ++ "\n")
    return 0

end Utility

end Coordination.Shell
