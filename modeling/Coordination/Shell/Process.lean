import Coordination.OrderedMap
import Coordination.Shell.Host
import Coordination.Shell.Script

/-!
# Processes

What one process of a shell knows, and what it does to itself and its host step by step. A
step either goes on or interrupts the process. A process that is made from another one
starts as a copy of it, and nothing that it does to itself reaches the other one.
-/

namespace Coordination.Shell

/-- How a process ends. -/
inductive Ending where
  | exited (status : Nat)
  | killed (signal : Nat)
  /-- It was still there when it was looked at. -/
  | late
  deriving DecidableEq, Repr, Inhabited

namespace Ending

/-- The end of a process with a status, of which one byte is kept. -/
def ofStatus (status : Nat) : Ending := .exited (status % 256)

/-- The status that a shell sees. -/
def status : Ending → Nat
  | .exited status => status
  | .killed signal => 128 + signal
  | .late => 0

end Ending

/-- Why a process does not go on. -/
inductive Interrupt where
  /-- An error was reported that ends the shell. -/
  | error
  /-- The shell was told to exit. -/
  | exit
  /-- The process has ended without another step of the shell. -/
  | gone (ending : Ending)
  deriving DecidableEq, Repr, Inhabited

/-- What commands are passed over. -/
inductive Skip where
  | nothing
  /-- Those up to the end of so many loops. -/
  | break (loops : Nat)
  /-- Those up to the next round, so many loops up. -/
  | continue (loops : Nat)
  /-- Those up to the end of a function or of the script. -/
  | return (given : Bool)
  deriving DecidableEq, Repr, Inhabited

/-- A variable. -/
structure Variable where
  value : Option String
  exported : Bool
  readOnly : Bool
  deriving DecidableEq, Repr, Inhabited

/-- What is given back when a function or a command ends. -/
inductive Kept where
  | variable (name : String) (old : Option Variable)
  | options (old : List Char)
  deriving DecidableEq, Repr, Inhabited

namespace Kept

/-- Whether it is for the variable of a name. -/
def isFor (name : String) : Kept → Bool
  | .variable kept _ => kept = name
  | .options _ => false

end Kept

/-- The options by their names. Those without a letter have one here that nobody can name. -/
def optionNames : List (String × Char) :=
  [("errexit", 'e'), ("noglob", 'f'), ("ignoreeof", 'I'), ("interactive", 'i'),
    ("monitor", 'm'), ("noexec", 'n'), ("stdin", 's'), ("xtrace", 'x'), ("verbose", 'v'),
    ("vi", 'V'), ("emacs", 'E'), ("noclobber", 'C'), ("allexport", 'a'), ("notify", 'b'),
    ("nounset", 'u'), ("privileged", 'p'), ("nolog", '\x01'), ("debug", '\x02')]

/-- The letters of the options that are set, in their order. -/
def optionLetters (options : List Char) : String :=
  String.ofList ((optionNames.map Prod.snd).reverse.filter fun c =>
    options.contains c && ' ' < c)

/-- A process of a shell. -/
structure Process where
  /-- What the shell calls itself in messages. -/
  name : String
  number : Nat
  /-- The number of the process that the shell started as. -/
  rootNumber : Nat
  /-- The numbers of the processes that wait for this one, the closest first. -/
  ancestors : List Nat
  place : Place
  /-- The open file of each descriptor. -/
  descriptors : List (Nat × Nat)
  /-- Permissions that new files do not get. -/
  mask : Nat
  bindings : OrderedMap Variable
  functions : OrderedMap Command
  aliases : OrderedMap String
  arguments : List String
  /-- The letters of the options that are set. -/
  options : List Char
  status : Nat
  line : Nat
  /-- The line up to which the script was read. -/
  sourceLine : Nat
  documents : Documents
  nextDocument : Nat
  /-- The command of the shell that reports errors. -/
  command : Option String
  /-- How many loops and functions are running. -/
  loops : Nat
  calls : Nat
  skip : Skip
  /-- The status from before a trap. -/
  saved : Option Nat
  /-- The status of the last substituted command. -/
  substituted : Nat
  lastBackground : Option Nat
  /-- The numbers of processes in the background. -/
  jobs : List Nat
  /-- Commands for signals. -/
  traps : List (Nat × String)
  /-- Signals that were taken and have a trap. -/
  pending : List Nat
  /-- What functions will give back, the innermost function first. -/
  locals : List (List Kept)
  /-- How far the letters of an argument were read. -/
  letters : Option Nat

/-- A process in its background, as it was before its first step. -/
structure Suspended where
  process : Process
  body : Command
  started : Nat

/-- A process and the others that it meets. -/
structure World where
  host : Host
  process : Process
  suspended : List (Nat × Suspended)
  /-- How processes in the background ended. -/
  ended : List (Nat × Ending)
  /-- The time at which processes are looked at. -/
  deadline : Option Nat

/-- Steps of a process. -/
abbrev Sh := ExceptT Interrupt (StateM World)

namespace Sh

/-- The process. -/
def process : Sh Process := do return (← get).process

/-- Change the process. -/
def modifyProcess (change : Process → Process) : Sh Unit :=
  modify fun w => { w with process := change w.process }

/-- Change the host. -/
def modifyHost (change : Host → Host) : Sh Unit :=
  modify fun w => { w with host := change w.host }

/-- Do something with the host. -/
def onHost {α : Type} (act : Host → α × Host) : Sh α := do
  let w ← get
  let (a, host) := act w.host
  set { w with host }
  return a

/-- Set the status of the last command. -/
def setStatus (status : Nat) : Sh Unit := modifyProcess fun p => { p with status }

/-- Whether an option is set. -/
def hasOption (letter : Char) : Sh Bool := do return (← process).options.contains letter

/-! ## Files -/

/-- The files. -/
def files : Sh Files := do return (← get).host.files

/-- The open file of a descriptor. -/
def descriptor? (fd : Nat) : Sh (Option Nat) := do return (← process).descriptors.lookup fd

/-- Let a descriptor be an open file, or none. -/
def setDescriptor (fd : Nat) (number : Option Nat) : Sh Unit :=
  modifyProcess fun p =>
    let others := p.descriptors.filter (·.1 ≠ fd)
    { p with descriptors := match number with
        | some number => (fd, number) :: others
        | none => others }

/-- Write bytes to a descriptor. Nobody survives writing to a pipe without a reader who did
not ask for that. -/
def writeBytes (fd : Nat) (bytes : Bytes) : Sh (Except StreamError Unit) := do
  let w ← get
  match w.process.descriptors.lookup fd with
  | none => return .error .badDescriptor
  | some number =>
    match w.host.write number bytes with
    | .ok host => do
      set { w with host }
      return .ok ()
    | .error .brokenPipe =>
      if (w.process.traps.lookup 13).isSome then return .error .brokenPipe
      else throw (.gone (.killed 13))
    | .error e => return .error e

/-- Write a text to a descriptor, whatever comes of it. -/
def write (fd : Nat) (text : String) : Sh Unit := do
  if text ≠ "" then
    let _ ← writeBytes fd (toBytes text)

/-! ## Messages -/

/-- The start of a message. -/
def heading (p : Process) : String :=
  let command := match p.command with
    | some command => command ++ ": "
    | none => ""
  p.name ++ ": " ++ ofNat p.line ++ ": " ++ command

/-- Report something on the error output. -/
def warn (message : String) : Sh Unit := do
  let p ← process
  write 2 (heading p ++ message ++ "\n")

/-- Report an error that interrupts the command. -/
def fail {α : Type} (message : String) : Sh α := do
  warn message
  setStatus 2
  throw .error

/-- Report that a text is no number. -/
def failNumber {α : Type} (text : String) : Sh α := fail ("Illegal number: " ++ text)

/-- The number of 31 bits that a text spells. -/
def number (text : String) : Sh Nat := do
  match decimalInteger? text with
  | some n => if 0 ≤ n ∧ n ≤ 2147483647 then return n.toNat else failNumber text
  | none => failNumber text

/-! ## Variables -/

/-- The value of a variable. -/
def value? (name : String) : Sh (Option String) := do
  return ((← process).bindings.get? name).bind (·.value)

/-- The separators of fields. -/
def separators : Sh (Option (List Char)) := do
  return (← value? "IFS").map String.toList

/-- Set a variable to a value, or to none, and export it as well or not. -/
def assign (name : String) (value : Option String) (exported : Bool) : Sh Unit := do
  let p ← process
  let old := (p.bindings.get? name).getD ⟨none, false, false⟩
  if old.readOnly then fail (name ++ ": is read only")
  else
    let new : Variable :=
      { old with value, exported := old.exported || exported || p.options.contains 'a' }
    modifyProcess fun p => { p with bindings := p.bindings.insert name new }
    if name = "OPTIND" then
      modifyProcess fun p => { p with letters := none }

/-- Forget a variable. -/
def unassign (name : String) : Sh Unit := do
  let p ← process
  match p.bindings.get? name with
  | none => return ()
  | some old =>
    if old.readOnly then fail (name ++ ": is read only")
    else modifyProcess fun p => { p with bindings := p.bindings.erase name }

/-- Give a variable back when the innermost function or command ends. -/
def keepLocal (name : String) : Sh Unit :=
  modifyProcess fun p =>
    match p.locals with
    | [] => p
    | frame :: outer =>
      if frame.any (·.isFor name) then p
      else { p with locals := (.variable name (p.bindings.get? name) :: frame) :: outer }

/-- Give the options back when the innermost function ends. -/
def keepOptions : Sh Unit :=
  modifyProcess fun p =>
    match p.locals with
    | [] => p
    | frame :: outer => { p with locals := (.options p.options :: frame) :: outer }

/-- Start to keep variables. -/
def pushLocals : Sh Unit := modifyProcess fun p => { p with locals := [] :: p.locals }

/-- Give back something that was kept. -/
def giveBack (p : Process) : Kept → Process
  | .variable name (some old) => { p with bindings := p.bindings.insert name old }
  | .variable name none => { p with bindings := p.bindings.erase name }
  | .options old => { p with options := old }

/-- Give back what was kept last. -/
def popLocals : Sh Unit :=
  modifyProcess fun p =>
    match p.locals with
    | [] => p
    | frame :: outer => { frame.foldl giveBack p with locals := outer }

/-- The variables that programs get to see. -/
def environment : Sh (List (String × String)) := do
  return (← process).bindings.toList.filterMap fun (name, v) =>
    if v.exported then v.value.map (name, ·) else none

/-! ## Other processes -/

/-- How a process ends that does some steps. -/
def toEnding (steps : Sh Unit) : Sh Ending := fun w =>
  match steps.run w with
  | (.ok (), w) => (.ok (.ofStatus w.process.status), w)
  | (.error (.gone ending), w) => (.ok ending, w)
  | (.error _, w) => (.ok (.ofStatus w.process.status), w)

/-- Do something, and then something else even if the first was interrupted. -/
def andFinally {α : Type} (steps : Sh α) (after : Sh Unit) : Sh α := fun w =>
  let (result, w) := steps.run w
  match after.run w with
  | (.ok (), w) => (result, w)
  | (.error e, w) => (.error e, w)

/-- The number of a new process. -/
def newNumber : Sh Nat :=
  onHost fun h => (h.nextProcess, { h with nextProcess := h.nextProcess + 1 })

/-- Do steps as a new process, which starts as a changed copy of this one, and tell how it
ended. -/
def asChild (change : Process → Process) (steps : Sh Unit) : Sh Ending := do
  let number ← newNumber
  let outer ← process
  modifyProcess fun p => { change p with number, ancestors := outer.number :: outer.ancestors }
  let ending ← toEnding steps
  modifyProcess fun _ => outer
  return ending

end Sh

end Coordination.Shell
