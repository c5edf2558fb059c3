import Coordination.Shell.Evaluate

/-!
# Running commands

A command is a program with arguments. It either cannot be started or ends with what it
wrote on its error output; its standard output is not kept, and there is nothing on its
standard input. It is waited for until everything that it started has ended as well.
-/

namespace Coordination.Shell

/-- How a command ended. -/
structure Exit where
  ending : Ending
  errors : Bytes
  deriving DecidableEq, Repr, Inhabited

namespace Exit

/-- Whether the command succeeded. -/
def succeeded (e : Exit) : Bool := e.ending = .exited 0

end Exit

/-- The variables with which commands start. -/
def environment : List (String × String) :=
  [("PATH", "/usr/local/sbin:/usr/local/bin:/usr/sbin:/usr/bin:/sbin:/bin"),
    ("HOME", "/root")]

/-- The number of steps that a command may use. -/
def stepLimit : Nat := 200000

/-- The first process, among files. -/
def firstWorld (files : Files) : World :=
  let h := Host.ofFiles files
  let (input, h) := h.add ⟨.device .null, 0, true, false, false⟩
  let (output, h) := h.add ⟨.discarded, 0, false, true, false⟩
  let (errors, h) := h.add ⟨.errors, 0, false, true, false⟩
  let bindings := OrderedMap.ofList (environment.map fun (name, value) =>
    (name, (⟨some value, true, false⟩ : Variable)))
  let process : Process :=
    { name := "sh", number := 999, rootNumber := 999, ancestors := [], place := Files.home,
      descriptors := [(0, input), (1, output), (2, errors)], mask := 0o022, bindings,
      functions := .empty, aliases := .empty, arguments := [], options := [], status := 0,
      line := 0, sourceLine := 0, documents := [], nextDocument := 0, command := none,
      loops := 0, calls := 0, skip := .nothing, saved := none, substituted := 0,
      lastBackground := none, jobs := [], traps := [], pending := [], locals := [],
      letters := none }
  { host := h, process, suspended := [], ended := [], deadline := none }

/-- The path of a program that can be started, or why it cannot. -/
def startable (name : String) (files : Files) : Except IoError String := do
  let check (path : String) : Except IoError String := do
    let (place, item) ← files.find Files.home (toText path)
    if item = .directory ∨ files.mode place &&& 0o111 = 0 then .error .permissionDenied
    else .ok path
  if name = "" then .error .notFound
  else if name.toList.contains '/' then check name
  else
    let path := (environment.lookup "PATH").getD ""
    let directories := (Text.splitAll ':' path.toList).map String.ofList
    match directories.findSome? fun d => (check (d ++ "/" ++ name)).toOption with
    | some path => .ok path
    | none => .error .notFound

/-- Run a program with arguments among files. -/
def run (program : String) (args : List String) (files : Files) :
    Except IoError Exit × Files :=
  if (program :: args).any fun s => s.toList.contains '\x00' then (.error .invalidInput, files)
  else
    let words := (program :: args).map ofText
    match startable (ofText program) files with
    | .error e => (.error e, files)
    | .ok path =>
      let steps : Sh Ending := do
        let ending ← Sh.toEnding (Evaluation.execute path words stepLimit)
        Evaluation.settle none none stepLimit
        return ending
      let (result, w) := steps.run (firstWorld files)
      let ending := match result with
        | .ok ending => ending
        | .error _ => .exited 0
      (.ok ⟨ending, w.host.errors.bytes⟩, w.host.files)

end Coordination.Shell
