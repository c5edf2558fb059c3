import Coordination.Shell.Builtin
import Coordination.Shell.Expand
import Coordination.Shell.Redirect
import Coordination.Shell.Utility.Table

/-!
# Evaluation

Expanding words and running commands. The two depend on each other, because a word can hold
commands. Every function takes the number of steps that it may use: a step goes down one
level or one round of a loop. A process that has no steps left ends like one whose output
nobody reads.

Processes run one after another. A stage of a pipeline runs to its end before the next one
starts, and a process in the background waits until someone waits for it, sleeps or ends.
-/

namespace Coordination.Shell

/-- What the name of a command stands for. -/
inductive Callee where
  /-- There is no name. -/
  | nothing
  | function (body : Command)
  | builtin (name : String)
  | program
  deriving Inhabited

/-- A command with its words expanded. -/
structure Call where
  callee : Callee
  words : List String
  /-- The words as they were written. -/
  traced : List String
  /-- Whether it is one of the commands that stand above functions, once that is known. -/
  special : Option Bool
  deriving Inhabited

namespace Call

/-- Whether its assignments are forgotten when it ends. -/
def keepsLocal (c : Call) : Bool :=
  match c.callee with
  | .nothing => false
  | .builtin _ => c.special ≠ some true
  | _ => true

/-- Whether its redirections stay. -/
def isExec (c : Call) : Bool :=
  match c.callee with
  | .builtin "exec" => true
  | _ => false

/-- Whether an error in it ends the shell. -/
def endsShell (c : Call) : Bool := c.special = some true

end Call

/-- The commands whose arguments may be assignments. -/
def assigningBuiltins : List String := ["alias", "export", "local", "readonly"]

/-- The greatest number of functions that run inside each other. -/
def maxCalls : Nat := 1000

/-- How the options of `command` end: the words behind them, or nothing if it is to tell
what a name stands for. -/
def behindCommand : List String → Option (List String)
  | [] => none
  | word :: rest =>
    match word.toList with
    | ['-', '-'] => if rest.isEmpty then none else some rest
    | '-' :: c :: cs => if (c :: cs).all (· = 'p') then behindCommand rest else none
    | _ => some (word :: rest)

namespace Sh

/-- End because there are no steps left. -/
def exhausted {α : Type} : Sh α := throw (.gone (.killed 13))

/-- Whether commands are passed over. -/
def isSkipping : Sh Bool := do return (← process).skip ≠ .nothing

/-- Take the signals that were sent to this process. One that it does not care about may
end it. -/
def takeSignals : Sh Unit := do
  let w ← get
  let mine := w.host.signals.filter fun s => s.1 = w.process.number
  if !mine.isEmpty then
    modifyHost fun h => { h with
      signals := h.signals.filter fun s => s.1 ≠ w.process.number }
    mine.forM fun (_, signal) => do
      match w.process.traps.lookup signal with
      | some text =>
        if signal = 9 then throw (.gone (.killed 9))
        else if text ≠ "" then
          modifyProcess fun p => { p with pending := p.pending ++ [signal] }
      | none => if !Signal.isHarmless signal then throw (.gone (.killed signal))

/-- The status of a process that was waited for. How a signal ended it is told. -/
def awaited (ending : Ending) : Sh Nat := do
  match ending with
  | .late => throw (.gone .late)
  | .killed signal =>
    if signal ≠ 2 ∧ signal ≠ 13 then write 2 (Signal.description signal ++ "\n")
  | .exited _ => pure ()
  takeSignals
  return ending.status

/-- Do steps in a process of its own, and give the status. -/
def inChild (change : Process → Process) (steps : Sh Unit) : Sh Nat := do
  awaited (← asChild change steps)

/-- What a shell forgets when it goes on in a process of its own. -/
def forked (p : Process) : Process :=
  { p with
    traps := p.traps.filter fun t => t.2 = ""
    pending := []
    jobs := []
    saved := none }

/-- Count a round of a loop as ended, and tell what was skipped: nothing, what is left of
the round, or the loop. -/
def leaveRound : Sh Skip := do
  let p ← process
  match p.skip with
  | .break n =>
    let left : Skip := if n ≤ 1 then .nothing else .break (n - 1)
    modifyProcess fun p => { p with skip := left }
    return .break n
  | .continue n =>
    if n ≤ 1 then do
      modifyProcess fun p => { p with skip := .nothing }
      return .continue n
    else do
      modifyProcess fun p => { p with skip := .continue (n - 1) }
      return .break n
  | skip => return skip

/-- Whether a loop goes on after a round. -/
def goesOn : Skip → Bool
  | .nothing => true
  | .continue _ => true
  | _ => false

/-- Do something in a loop. -/
def inLoop {α : Type} (steps : Sh α) : Sh α := do
  modifyProcess fun p => { p with loops := p.loops + 1 }
  andFinally steps (modifyProcess fun p => { p with loops := p.loops - 1 })

/-- Give back variables down to a number of frames. -/
def popLocalsTo (depth : Nat) : Sh Unit := do
  let excess := (← process).locals.length - depth
  (List.range excess).forM fun _ => popLocals

/-- Write the trace of a command. -/
def trace (fd : Option Nat) (words : List String) : Sh Unit := do
  if ← hasOption 'x' then
    let start := (← value? "PS4").getD ""
    let line := start ++ " ".intercalate words ++ "\n"
    match fd with
    | none => pure ()
    | some number =>
      match (← get).host.write number (toBytes line) with
      | .ok host => modifyHost fun _ => host
      | .error _ => pure ()

/-- Do what a command of the shell does, and give its status. Its output is written at its
end; an error that does not end the shell is its status. -/
def runBuiltin (c : Call) (name : String) (steps : Sh Builtin.Result) : Sh Nat := do
  let outer := (← process).command
  modifyProcess fun p => { p with command := some name }
  let all : Sh Nat := do
    let (output, status) ← steps
    let failed ← if output = "" then pure false else do
      match ← writeBytes 1 (toBytes output) with
      | .ok () => pure false
      | .error _ => do
        warn (name ++ ": I/O error")
        pure true
    return if failed then status ||| 1 else status
  let caught : Sh Nat := fun w =>
    match all.run w with
    | (.error .error, w) =>
      if c.endsShell then (.error .error, w) else (.ok w.process.status, w)
    | result => result
  andFinally caught (modifyProcess fun p => { p with command := outer })

/-- The variables with which a shell starts. -/
def startVariables (p : Process) : OrderedMap Variable :=
  let exported := p.bindings.toList.filterMap fun (name, v) =>
    if v.exported && v.value.isSome then some (name, { v with readOnly := false }) else none
  let usual : List (String × String) :=
    [("IFS", " \t\n"), ("OPTIND", "1"), ("PPID", ofNat (p.ancestors.headD 1)), ("PS1", "# "),
      ("PS2", "> "), ("PS4", "+ "), ("PWD", Builtin.placePath p.place)]
  let kept := OrderedMap.ofList (exported.filter fun p => p.1 ≠ "OPTIND" && p.1 ≠ "IFS")
  usual.foldl (fun (bindings : OrderedMap Variable) (name, value) =>
    if name = "PWD" then bindings.insert name ⟨some value, true, false⟩
    else if (bindings.get? name).isSome then bindings
    else bindings.insert name ⟨some value, false, false⟩) kept

/-- The state in which a shell starts, given its name. -/
def started (name : String) (p : Process) : Process :=
  { p with
    name
    rootNumber := p.number
    bindings := startVariables p
    functions := .empty
    aliases := .empty
    arguments := []
    options := []
    status := 0
    line := 0
    sourceLine := 0
    documents := []
    nextDocument := 0
    command := none
    loops := 0
    calls := 0
    skip := .nothing
    saved := none
    substituted := 0
    lastBackground := none
    jobs := []
    traps := p.traps.filter fun t => t.2 = ""
    pending := []
    locals := []
    letters := none }

end Sh

/-- Start a process in the background, which waits there. -/
def Sh.startJob (body : Command) (redirections : List Redirection) : Sh Unit := do
  let number ← Sh.newNumber
  let nothing ← Sh.onHost fun h => h.add ⟨.device .null, 0, true, true, false⟩
  let outer ← Sh.process
  let others := outer.descriptors.filter (·.1 ≠ 0)
  let process : Process := { Sh.forked outer with
    number
    ancestors := outer.number :: outer.ancestors
    descriptors := (0, nothing) :: others }
  let body := if redirections.isEmpty then body
    else .redirected outer.line body redirections
  modify fun w => { w with
    suspended := w.suspended ++ [(number, ⟨process, body, w.host.clock⟩)]
    process := { w.process with
      lastBackground := some number, jobs := w.process.jobs ++ [number] } }

/-- The number of the process that an argument names: a job or a number. -/
def Sh.jobNumber (argument : String) : Sh Nat := do
  let jobs := (← Sh.process).jobs
  match argument.toList with
  | '%' :: rest =>
    let chosen := match rest with
      | [] => jobs.getLast?
      | ['%'] => jobs.getLast?
      | ['+'] => jobs.getLast?
      | ['-'] => jobs.dropLast.getLast?
      | digits => (decimal? (String.ofList digits)).bind fun i => jobs[i - 1]?
    match chosen with
    | some number => return number
    | none => Sh.fail ("No such job: " ++ argument)
  | _ => Sh.number argument

/-- Do what can be done of a process in its background up to a time, and tell how it ended
and what it left. Nothing is changed. -/
def Sh.tryJob (job : Suspended) (number : Nat) (deadline : Option Nat) (steps : Sh Unit) :
    Sh (Ending × World) := do
  let before ← get
  set { before with
    process := job.process
    host := { before.host with clock := job.started }
    suspended := before.suspended.filter (·.1 ≠ number)
    deadline }
  let ending ← Sh.toEnding steps
  let after ← get
  set before
  return (ending, after)

/-- Let a process in the background have ended as it was tried. -/
def Sh.commitJob (number : Nat) (ending : Ending) (after : World) : Sh Unit :=
  modify fun before => { after with
    process := before.process
    deadline := before.deadline
    host := { after.host with clock := max before.host.clock after.host.clock }
    ended := (number, ending) :: after.ended }

namespace Evaluation

mutual

/-- The atoms of a word from a piece on. -/
def expand (m : Manner) (inQuotes atStart : Bool) (word : Word) : Nat → Sh (List Atom)
  | 0 => Sh.exhausted
  | n + 1 => do
    match word with
    | [] => return []
    | .char .. :: _ =>
      let home ← Sh.value? "HOME"
      let (atoms, rest) := literals m home 0 (atStart && m.tilde ≠ .nowhere) word
      let edge : List Atom := if m.divides then [.edge false] else []
      return atoms ++ edge ++ (← expand m inQuotes false rest n)
    | .mark :: rest =>
      match inQuotes, rest with
      | false, .parameter "@" .value _ true :: .mark :: rest =>
        let atoms ← parameter m "@" .value [] true n
        return atoms ++ (← expand m false false rest n)
      | _, _ => return .mark :: (← expand m (!inQuotes) false rest n)
    | .parameter name operator inner quoted :: rest =>
      let atoms ← parameter m name operator inner quoted n
      return atoms ++ (← expand m inQuotes false rest n)
    | .output script quoted :: rest =>
      let text ← substitute script n
      let edge : List Atom := if quoted then [] else [.edge false]
      return Atom.ofValue text quoted ++ edge ++ (← expand m inQuotes false rest n)
    | .arithmetic expression quoted :: rest =>
      let text := Atom.text (← expand .quoted true false expression n)
      let value ← Sh.reckon text
      let edge : List Atom := if quoted then [] else [.edge false]
      return Atom.ofValue value quoted ++ edge ++ (← expand m inQuotes false rest n)
termination_by structural n => n

/-- The atoms of a parameter with an operator. -/
def parameter (m : Manner) (name : String) (operator : Operator) (word : Word)
    (quoted : Bool) : Nat → Sh (List Atom)
  | 0 => Sh.exhausted
  | n + 1 => do
    let value ← Sh.valueAtoms? m name quoted
    let isMissing (orEmpty : Bool) : Bool :=
      match value with
      | none => true
      | some atoms => orEmpty && Sh.lengthOf atoms = 0
    let inner : Manner := ⟨.start, m.fields, !quoted⟩
    let valueWithEdge := Sh.withEdge name quoted (value.getD [])
    match operator with
    | .unknown => Sh.fail "Bad substitution"
    | .value => do
      if value.isNone then Sh.demand name
      valueWithEdge
    | .length => do
      if value.isNone then Sh.demand name
      let length := ofNat (Sh.lengthOf (value.getD []))
      Sh.withEdge "#" quoted (Atom.ofValue length quoted)
    | .default orEmpty =>
      if isMissing orEmpty then expand inner false true word n else valueWithEdge
    | .alternative orEmpty =>
      if isMissing orEmpty then Sh.withEdge name quoted [] else expand inner false true word n
    | .assign orEmpty =>
      if isMissing orEmpty then do
        let text := Atom.text (← expand .text false true word n)
        if !isName name then Sh.fail (name ++ ": bad variable name")
        else do
          Sh.assign name (some text) false
          Sh.withEdge name quoted (Atom.ofValue text quoted)
      else valueWithEdge
    | .require orEmpty =>
      if isMissing orEmpty then do
        let text := Atom.text (← expand .text false true word n)
        Sh.failUnset name (if !word.isEmpty then text
          else "parameter not set" ++ (if orEmpty then " or null" else ""))
      else valueWithEdge
    | .trim atEnd longest =>
      match value with
      | none => do
        Sh.demand name
        valueWithEdge
      | some atoms => do
        let pattern := Pattern.ofChars (Atom.patternChars (← expand .text false true word n))
        let left := Atom.trim pattern atEnd longest (atoms.filter Atom.isContent)
        Sh.withEdge name quoted left
termination_by structural n => n

/-- The output of commands, without the line ends behind it. -/
def substitute (script : Command) : Nat → Sh String
  | 0 => Sh.exhausted
  | n + 1 => do
    let (reading, writing) ← Sh.onHost fun h => h.addPipe []
    let count := (← get).suspended.length
    let ending ← Sh.asChild Sh.forked do
      Sh.setDescriptor 1 (some writing)
      subshell false script n
    if count < (← get).suspended.length then settle none none n
    let bytes := match (← get).host.rest reading with
      | .ok bytes => bytes
      | .error _ => []
    let status ← Sh.awaited ending
    Sh.modifyProcess fun p => { p with substituted := status }
    let chars := ((ofBytes bytes).toList.filter (· ≠ '\x00')).reverse.dropWhile (· = '\n')
    return String.ofList chars.reverse
termination_by structural n => n

/-- The text of a word that is not divided. -/
def expandText (m : Manner) (word : Word) : Nat → Sh String
  | 0 => Sh.exhausted
  | n + 1 => do return Atom.text (← expand m false true word n)
termination_by structural n => n

/-- The texts of words. Those that look like assignments may be taken as such. -/
def expandWords (assigns : Bool) (words : List Word) : Nat → Sh (List String)
  | 0 => Sh.exhausted
  | n + 1 => do
    match words with
    | [] => return []
    | word :: rest =>
      let texts ← match if assigns then assignment? word else none with
        | some (name, value) => do
          let text ← expandText .assignment value n
          pure [name ++ "=" ++ text]
        | none => do
          let atoms ← expand .words false true word n
          Sh.fieldTexts atoms
      return texts ++ (← expandWords assigns rest n)
termination_by structural n => n

/-- The texts of the first words that have any, and the words behind them. -/
def expandFirst (words : List Word) : Nat → Sh (List String × List Word)
  | 0 => Sh.exhausted
  | n + 1 => do
    match words with
    | [] => return ([], [])
    | word :: rest =>
      let texts ← expandWords false [word] n
      if texts.isEmpty then expandFirst rest n else return (texts, rest)
termination_by structural n => n

/-- Redirections with their words expanded. -/
def expandRedirections (redirections : List Redirection) : Nat → Sh (List Opening)
  | 0 => Sh.exhausted
  | n + 1 => do
    match redirections with
    | [] => return []
    | first :: rest =>
      let opening ← match first with
        | .file fd access path => do
          let text ← expandText .text path n
          pure (Opening.file fd access text)
        | .same fd target => do
          let text ← expandText .text target n
          match Opening.ofTarget? fd text with
          | some opening => pure opening
          | none => do
            Sh.modifyProcess fun p => { p with line := p.sourceLine }
            Sh.fail "Syntax error: Bad fd number"
        | .document fd number => do
          let text := ((← Sh.process).documents.lookup number).getD []
          pure (Opening.text fd (do return Atom.text (← expand .quoted true false text n)))
      return opening :: (← expandRedirections rest n)
termination_by structural n => n

/-- Whether one of the patterns describes a text. -/
def describedBy (text : String) (patterns : List Word) : Nat → Sh Bool
  | 0 => Sh.exhausted
  | n + 1 => do
    match patterns with
    | [] => return false
    | word :: rest =>
      let pattern := Pattern.ofChars (Atom.patternChars (← expand .text false true word n))
      if Pattern.describes pattern text.toList then return true else describedBy text rest n
termination_by structural n => n

/-- Run the commands for signals that were taken. -/
def runTraps : Nat → Sh Unit
  | 0 => Sh.exhausted
  | n + 1 => do
    Sh.takeSignals
    let p ← Sh.process
    match p.pending with
    | [] => return ()
    | signal :: rest =>
      if p.skip ≠ .nothing then return ()
      else
        let saved := p.saved.getD p.status
        Sh.modifyProcess fun p => { p with pending := rest, saved := some saved }
        let _ ← runText false ((p.traps.lookup signal).getD "") n
        Sh.modifyProcess fun q => { q with
          status := if q.skip = .return true then q.status else saved
          saved := p.saved }
        runTraps n
termination_by structural n => n

/-- Run a command and give its status. What is only tested may fail without ending the
shell. -/
def evaluate (tested : Bool) (command : Command) : Nat → Sh Nat
  | 0 => Sh.exhausted
  | n + 1 => do
    runTraps n
    let p ← Sh.process
    if p.options.contains 'n' then return p.status
    else
      let checks := p.options.contains 'e' && !tested
      match command with
      | .nothing => return p.status
      | .simple line assignments words redirections => do
        let status ← simple tested line assignments words redirections n
        conclude checks status n
      | .pipeline stages => do
        let status ← pipeline tested stages none n
        conclude checks status n
      | .subshell line body redirections => do
        Sh.modifyProcess fun p => { p with line }
        let openings ← expandRedirections redirections n
        let status ← Sh.inChild Sh.forked do
          openings.forM Sh.openOne
          subshell tested body n
        conclude checks status n
      | .background line body redirections => do
        if line ≠ 0 then Sh.modifyProcess fun p => { p with line }
        Sh.startJob body redirections
        conclude false 0 n
      | .negation body => do
        let status ← evaluate true body n
        if ← Sh.isSkipping then conclude false status n
        else conclude false (if status = 0 then 1 else 0) n
      | .both first second => do
        let status ← evaluate true first n
        if status ≠ 0 ∨ (← Sh.isSkipping) then conclude false status n
        else conclude false (← evaluate tested second n) n
      | .either first second => do
        let status ← evaluate true first n
        if status = 0 ∨ (← Sh.isSkipping) then conclude false status n
        else conclude false (← evaluate tested second n) n
      | .sequence first second => do
        let status ← evaluate tested first n
        if ← Sh.isSkipping then conclude false status n
        else evaluate tested second n
      | .redirected line body redirections => do
        Sh.modifyProcess fun p => { p with line }
        let openings ← expandRedirections redirections n
        let before ← Sh.process
        let steps : Sh Nat := do
          if ← Sh.openAll openings then evaluate tested body n else return 2
        let status ← Sh.andFinally steps (Sh.restoreDescriptors openings before)
        conclude false status n
      | .conditional condition consequence alternative => do
        let status ← evaluate true condition n
        if ← Sh.isSkipping then conclude false status n
        else if status = 0 then conclude false (← evaluate tested consequence n) n
        else
          match alternative with
          | .nothing => conclude false 0 n
          | alternative => conclude false (← evaluate tested alternative n) n
      | .loop untilSuccess condition body => do
        let status ← Sh.inLoop (rounds tested untilSuccess condition body 0 n)
        conclude false status n
      | .iteration line name words body => do
        Sh.modifyProcess fun p => { p with line }
        let texts ← expandWords false words n
        let status ← Sh.inLoop (eachWord tested name texts body 0 n)
        conclude false status n
      | .selection line word branches => do
        Sh.modifyProcess fun p => { p with line }
        let text ← expandText .text word n
        let status ← select tested text branches n
        conclude false status n
      | .define _ name body => do
        Sh.modifyProcess fun p => { p with functions := p.functions.insert name body }
        conclude false 0 n
termination_by structural n => n

/-- End a command with a status. A failure that counts ends the shell. -/
def conclude (checks : Bool) (status : Nat) : Nat → Sh Nat
  | 0 => Sh.exhausted
  | n + 1 => do
    Sh.setStatus status
    runTraps n
    if checks ∧ status ≠ 0 then throw .exit else return status
termination_by structural n => n

/-- Run the rounds of a loop. -/
def rounds (tested untilSuccess : Bool) (condition body : Command) (status : Nat) :
    Nat → Sh Nat
  | 0 => Sh.exhausted
  | n + 1 => do
    let found ← evaluate true condition n
    match ← Sh.leaveRound with
    | .nothing =>
      if (found = 0) = untilSuccess then return status
      else
        let status ← evaluate tested body n
        let skip ← Sh.leaveRound
        if Sh.goesOn skip then rounds tested untilSuccess condition body status n
        else return status
    | .continue _ => rounds tested untilSuccess condition body status n
    | .return true => return found
    | _ => return status
termination_by structural n => n

/-- Run a body once for each text. -/
def eachWord (tested : Bool) (name : String) (texts : List String) (body : Command)
    (status : Nat) : Nat → Sh Nat
  | 0 => Sh.exhausted
  | n + 1 => do
    match texts with
    | [] => return status
    | text :: rest =>
      Sh.assign name (some text) false
      let status ← evaluate tested body n
      let skip ← Sh.leaveRound
      if Sh.goesOn skip then eachWord tested name rest body status n else return status
termination_by structural n => n

/-- Run the first branch with a pattern that describes a text. -/
def select (tested : Bool) (text : String) (branches : List (List Word × Command)) :
    Nat → Sh Nat
  | 0 => Sh.exhausted
  | n + 1 => do
    match branches with
    | [] => return 0
    | (patterns, body) :: rest =>
      if ← describedBy text patterns n then
        match body with
        | .nothing => return 0
        | body => evaluate tested body n
      else select tested text rest n
termination_by structural n => n

/-- Run the stages of a pipeline, the first with an input or the usual one. -/
def pipeline (tested : Bool) (stages : List Command) (input : Option Nat) : Nat → Sh Nat
  | 0 => Sh.exhausted
  | n + 1 => do
    let prepare : Sh Unit := do
      match input with
      | some number => Sh.setDescriptor 0 (some number)
      | none => pure ()
    match stages with
    | [] => return 0
    | [last] => Sh.inChild Sh.forked do
      prepare
      subshell tested last n
    | first :: rest => do
      let (reading, writing) ← Sh.onHost fun h => h.addPipe []
      let count := (← get).suspended.length
      let _ ← Sh.inChild Sh.forked do
        prepare
        Sh.setDescriptor 1 (some writing)
        subshell tested first n
      if count < (← get).suspended.length then settle none none n
      pipeline tested rest (some reading) n
termination_by structural n => n

/-- Run a command as the last one of its process, and then what was asked for at its end. -/
def subshell (tested : Bool) (body : Command) : Nat → Sh Unit
  | 0 => Sh.exhausted
  | n + 1 => finish (do let _ ← evaluate tested body n) n
termination_by structural n => n

/-- Do the last steps of a shell, and then what was asked for at its end. -/
def finish (steps : Sh Unit) : Nat → Sh Unit
  | 0 => Sh.exhausted
  | n + 1 => do
    tryCatch steps fun e =>
      match e with
      | .gone ending => throw (.gone ending)
      | _ => pure ()
    let p ← Sh.process
    match p.traps.lookup 0 with
    | none => return ()
    | some text =>
      Sh.modifyProcess fun p => { p with
        traps := p.traps.filter (·.1 ≠ 0)
        skip := .nothing
        saved := some p.status }
      tryCatch (do
          let _ ← runText false text n
          Sh.setStatus p.status) fun e =>
        match e with
        | .gone ending => throw (.gone ending)
        | _ => pure ()
termination_by structural n => n

/-- Run a simple command. -/
def simple (tested : Bool) (line : Nat) (assignments words : List Word)
    (redirections : List Redirection) : Nat → Sh Nat
  | 0 => Sh.exhausted
  | n + 1 => do
    Sh.modifyProcess fun p => { p with line, substituted := 0 }
    let depth := (← Sh.process).locals.length
    let steps : Sh Nat := do
      let (first, rest) ← expandFirst words n
      let call ← resolve [] first rest false none n
      if call.keepsLocal then Sh.pushLocals
      let openings ← expandRedirections redirections n
      let before ← Sh.process
      let succeeded ← Sh.openAll openings
      let restore := Sh.restoreDescriptors openings before
      if !succeeded then
        restore
        Sh.setStatus 2
        if call.endsShell then throw .error else return 2
      else
        let inner : Sh Nat := do
          let exported := call.keepsLocal || (call.isExec && call.words.length > 1)
          let assigned ← assignAll call.keepsLocal exported assignments n
          Sh.trace (before.descriptors.lookup 2) (assigned ++ call.traced)
          invoke tested call n
        if call.isExec then inner else Sh.andFinally inner restore
    Sh.andFinally steps (Sh.popLocalsTo depth)
termination_by structural n => n

/-- Carry out assignments, and give them as they are traced. -/
def assignAll (keeps exported : Bool) (assignments : List Word) : Nat → Sh (List String)
  | 0 => Sh.exhausted
  | n + 1 => do
    match assignments with
    | [] => return []
    | word :: rest =>
      match assignment? word with
      | none => assignAll keeps exported rest n
      | some (name, value) =>
        let text ← expandText .assignment value n
        if keeps then Sh.keepLocal name
        Sh.assign name (some text) exported
        return (name ++ "=" ++ text) :: (← assignAll keeps exported rest n)
termination_by structural n => n

/-- Find out what a command calls, given its first words and those that are not expanded
yet. -/
def resolve (traced words : List String) (rest : List Word) (passesFunctions : Bool)
    (special : Option Bool) : Nat → Sh Call
  | 0 => Sh.exhausted
  | n + 1 => do
    match words with
    | [] => return ⟨.nothing, [], [], none⟩
    | name :: arguments =>
      let complete (callee : Callee) (assigns : Bool) (special : Option Bool) : Sh Call := do
        let words := words ++ (← expandWords assigns rest n)
        return ⟨callee, words, traced ++ words, special⟩
      let p ← Sh.process
      match if passesFunctions then none else p.functions.get? name with
      | some body => complete (.function body) false special
      | none =>
        if !Builtin.names.contains name then complete .program false special
        else
          let special := some (special.getD (specialBuiltins.contains name))
          if name = "command" then do
            let arguments := arguments ++ (← expandWords false rest n)
            match behindCommand arguments with
            | none =>
              let words := name :: arguments
              return ⟨.builtin name, words, traced ++ words, special⟩
            | some words =>
              let before := (name :: arguments).take (arguments.length + 1 - words.length)
              resolve (traced ++ before) words [] true special n
          else complete (.builtin name) (assigningBuiltins.contains name) special
termination_by structural n => n

/-- Run what a command calls. -/
def invoke (tested : Bool) (call : Call) : Nat → Sh Nat
  | 0 => Sh.exhausted
  | n + 1 => do
    let arguments := call.words.drop 1
    match call.callee with
    | .nothing => return (← Sh.process).substituted
    | .function body => callFunction tested body arguments n
    | .program => runProgram call.words n
    | .builtin name =>
      let steps := match Builtin.table.lookup name with
        | some builtin => builtin arguments
        | none => runningBuiltin tested name arguments n
      Sh.runBuiltin call name steps
termination_by structural n => n

/-- Call a function with arguments. -/
def callFunction (tested : Bool) (body : Command) (arguments : List String) : Nat → Sh Nat
  | 0 => Sh.exhausted
  | n + 1 => do
    let outer ← Sh.process
    if maxCalls ≤ outer.calls then
      Sh.fail ("Maximum function recursion depth (" ++ ofNat maxCalls ++ ") reached")
    else
      Sh.modifyProcess fun p => { p with arguments, loops := 0, calls := p.calls + 1 }
      let restore := Sh.modifyProcess fun p => { p with
        arguments := outer.arguments
        loops := outer.loops
        calls := outer.calls
        skip := match p.skip with
          | .return _ => .nothing
          | skip => skip }
      Sh.andFinally (do let _ ← evaluate tested body n) restore
      return (← Sh.process).status
termination_by structural n => n

/-- Run a program in a process of its own. Time may pass for others while it runs. -/
def runProgram (words : List String) : Nat → Sh Nat
  | 0 => Sh.exhausted
  | n + 1 => do
    let name := words.headD ""
    match ← Sh.findProgram name with
    | .error e => do
      Sh.warn (name ++ ": " ++ Sh.whyNotRun e)
      return 127
    | .ok path => do
      let clock := (← get).host.clock
      let status ← Sh.inChild id (execute path words n)
      let w ← get
      if clock < w.host.clock ∧ !w.suspended.isEmpty then settle none (some w.host.clock) n
      return status
termination_by structural n => n

/-- Go on as the program at a path. -/
def execute (path : String) (words : List String) : Nat → Sh Unit
  | 0 => Sh.exhausted
  | n + 1 => do
    let name := words.headD ""
    let give (e : IoError) : Sh Unit := do
      Sh.warn (name ++ ": " ++ Sh.whyNotRun e)
      let isMissing := e = .notFound || e = .notADirectory || e = .invalidFilename
      throw (.gone (.exited (if isMissing then 127 else 126)))
    let files ← Sh.files
    match files.find (← Sh.process).place (toText path) with
    | .error e => give e
    | .ok (_, .program program) => runUtility program words n
    | .ok (place, .file content) =>
      if files.mode place &&& 0o111 = 0 then give .permissionDenied
      else
        match (ofBytes content).toList with
        | '#' :: '!' :: rest =>
          let line := (rest.takeWhile (· ≠ '\n')).dropWhile isBlank
          let interpreter := String.ofList (line.takeWhile fun c => !isBlank c)
          let argument := (line.drop interpreter.length).dropWhile isBlank
          let argument := (argument.reverse.dropWhile isBlank).reverse
          let before := if argument.isEmpty then [] else [String.ofList argument]
          match files.find (← Sh.process).place (toText interpreter) with
          | .error _ => give .notFound
          | .ok _ => execute interpreter (interpreter :: before ++ path :: words.drop 1) n
        | _ => runShell ("/bin/sh" :: path :: words.drop 1) n
    | .ok _ => give .permissionDenied
termination_by structural n => n

/-- Go on as a utility. -/
def runUtility (program : String) (words : List String) : Nat → Sh Unit
  | 0 => Sh.exhausted
  | n + 1 => do
    if program = "sh" ∨ program = "dash" then runShell words n
    else
      match Utility.table.lookup program with
      | some utility => do
        let status ← utility (words.headD "") (words.drop 1)
        throw (.gone (.exited status))
      | none => throw (.gone (.exited 127))
termination_by structural n => n

/-- Go on as a shell. -/
def runShell (words : List String) : Nat → Sh Unit
  | 0 => Sh.exhausted
  | n + 1 => do
    let name := words.headD "sh"
    Sh.modifyProcess (Sh.started name)
    let steps : Sh Unit := do
      let arguments := words.drop 1
      let read ← Builtin.readSettings true (arguments.length + 1) ⟨arguments, false, false, ""⟩
      match read.script, read.rest with
      | true, [] => Sh.fail "-c requires an argument"
      | true, text :: rest => do
        Sh.modifyProcess fun p => { p with
          name := rest.headD name, arguments := rest.drop 1 }
        let _ ← runText false text n
      | false, rest => do
        let fromInput := rest.isEmpty || (← Sh.hasOption 's')
        let content ← if fromInput then do
            Sh.modifyProcess fun p => { p with arguments := rest }
            Utility.input
          else do
            let path := rest.headD ""
            match (← Sh.files).find (← Sh.process).place (toText path) with
            | .error e => Sh.failOpen .input path e
            | .ok (_, item) => do
              Sh.modifyProcess fun p => { p with name := path, arguments := rest.drop 1 }
              pure (.ok (ofBytes item.content))
        match content with
        | .ok text => do
          let p ← Sh.process
          let source := Source.ofText text.toList p.aliases p.nextDocument
          let _ ← runSource false true source 0 n
        | .error _ => pure ()
    finish steps n
    throw (.gone (.ofStatus (← Sh.process).status))
termination_by structural n => n

/-- Run the commands of a text, and give the status of the last one. -/
def runText (tested : Bool) (text : String) : Nat → Sh Nat
  | 0 => Sh.exhausted
  | n + 1 => do
    let p ← Sh.process
    let source := Source.ofText text.toList p.aliases p.nextDocument
    Sh.andFinally (runSource tested false source 0 n)
      (Sh.modifyProcess fun q => { q with sourceLine := p.sourceLine })
termination_by structural n => n

/-- Run the lines of a source. A source that is a file may be shown while it is read. -/
def runSource (tested isFile : Bool) (source : Source) (status : Nat) : Nat → Sh Nat
  | 0 => Sh.exhausted
  | n + 1 => do
    let p ← Sh.process
    match readLine { source with aliases := p.aliases, next := p.nextDocument } with
    | .error e => do
      Sh.modifyProcess fun p => { p with line := e.line }
      Sh.fail e.message
    | .ok (command, after) => do
      if isFile ∧ p.options.contains 'v' then
        let read := source.rest.take (source.rest.length - after.rest.length)
        Sh.write 2 (String.ofList read)
      Sh.modifyProcess fun p => { p with
        documents := after.documents ++ p.documents
        nextDocument := after.next
        sourceLine := after.line }
      let after := { after with documents := [] }
      match command with
      | none => return status
      | some .nothing => runSource tested isFile after status n
      | some command => do
        let status ← evaluate tested command n
        if ← Sh.isSkipping then return status
        else runSource tested isFile after status n
termination_by structural n => n

/-- Let processes in the background end that do so up to a time, in the order of their ends.
It is enough if one of them has ended that is waited for. -/
def settle (wanted : Option Nat) (deadline : Option Nat) : Nat → Sh Unit
  | 0 => Sh.exhausted
  | n + 1 => do
    let w ← get
    let tries ← w.suspended.mapM fun (number, job) => do
      let (ending, after) ← Sh.tryJob job number deadline (subshell false job.body n)
      return (number, ending, after)
    let ended := tries.filter fun t => t.2.1 ≠ .late
    let earliest := ended.foldl (fun best t =>
      match best with
      | none => some t
      | some b => if t.2.2.host.clock < b.2.2.host.clock then some t else best)
      (none : Option (Nat × Ending × World))
    match earliest with
    | none => return ()
    | some (number, ending, after) => do
      Sh.commitJob number ending after
      if wanted = some number then return () else settle wanted deadline n
termination_by structural n => n

/-- Send a signal to a process, and tell whether there is one. -/
def sendSignal (target signal : Nat) : Nat → Sh Bool
  | 0 => Sh.exhausted
  | n + 1 => do
    let w ← get
    match w.suspended.lookup target with
    | some job => do
      if !Signal.isHarmless signal then
        let (ending, after) ←
          Sh.tryJob job target (some w.host.clock) (subshell false job.body n)
        match ending with
        | .late =>
          if job.started < w.host.clock then
            Sh.commitJob target (.killed signal)
              { after with host := { after.host with clock := w.host.clock } }
          else
            modify fun w => { w with
              suspended := w.suspended.filter (·.1 ≠ target)
              ended := (target, .killed signal) :: w.ended }
        | _ =>
          modify fun w => { w with
            suspended := w.suspended.filter (·.1 ≠ target)
            ended := (target, .killed signal) :: w.ended }
      return true
    | none =>
      if w.process.number = target ∨ w.process.ancestors.contains target then
        if signal ≠ 0 then
          Sh.modifyHost fun h => { h with signals := h.signals ++ [(target, signal)] }
          Sh.takeSignals
        return true
      else return (w.ended.lookup target).isSome
termination_by structural n => n

/-- Wait for a process in the background, and give its status. -/
def waitFor (number : Nat) : Nat → Sh Nat
  | 0 => Sh.exhausted
  | n + 1 => do
    if !(← Sh.process).jobs.contains number then return 127
    else
      settle (some number) none n
      match (← get).ended.lookup number with
      | some ending => Sh.awaited ending
      | none => return 127
termination_by structural n => n

/-- Send a signal to each of some processes, and give the status. -/
def killEach (signal : Nat) (targets : List String) (status : Nat) : Nat → Sh Nat
  | 0 => Sh.exhausted
  | n + 1 => do
    match targets with
    | [] => return status
    | target :: rest =>
      let number ← Sh.jobNumber target
      if ← sendSignal number signal n then killEach signal rest status n
      else do
        Sh.warn "No such process\n"
        killEach signal rest 1 n
termination_by structural n => n

/-- Wait for each of some processes, and give the status of the last. -/
def waitEach (targets : List String) (status : Nat) : Nat → Sh Nat
  | 0 => Sh.exhausted
  | n + 1 => do
    match targets with
    | [] => return status
    | target :: rest =>
      let number ← Sh.jobNumber target
      let status ← waitFor number n
      waitEach rest status n
termination_by structural n => n

/-- Run a command of the shell that runs commands. -/
def runningBuiltin (tested : Bool) (name : String) (arguments : List String) :
    Nat → Sh Builtin.Result
  | 0 => Sh.exhausted
  | n + 1 => do
    match name with
    | "eval" =>
      if arguments.isEmpty then return Builtin.done
      else return ("", ← runText tested (" ".intercalate arguments) n)
    | "." => do
      let (_, arguments) ← Builtin.readLetters "" arguments
      match arguments with
      | [] => return Builtin.done
      | path :: _ => return ("", ← includeFile path n)
    | "exec" =>
      match arguments with
      | [] => return Builtin.done
      | program :: _ =>
        let give (e : IoError) : Sh Builtin.Result := do
          Sh.warn (program ++ ": " ++ Sh.whyNotRun e)
          Sh.setStatus (if e = .permissionDenied then 126 else 127)
          throw .exit
        match ← Sh.findProgram program with
        | .error e => give e
        | .ok path =>
          match ← Sh.runnable path with
          | .error e => give e
          | .ok false => give .permissionDenied
          | .ok true => do
            execute path arguments n
            return Builtin.done
    | "kill" => do
      let (signal, lists, targets) ← Builtin.readKill arguments
      if lists ∧ signal.isNone then Builtin.listSignals targets
      else if lists ∨ targets.isEmpty then Sh.fail Builtin.killUsage
      else return ("", ← killEach (signal.getD 15) targets 0 n)
    | "wait" => do
      let (_, arguments) ← Builtin.readLetters "" arguments
      if arguments.isEmpty then
        settle none none n
        return Builtin.done
      else return ("", ← waitEach arguments 127 n)
    | _ => do
      let w ← get
      let lines := w.process.jobs.zipIdx.map fun (number, i) =>
        let text := if (w.suspended.lookup number).isSome then "Running" else "Done"
        let pad := String.ofList (List.replicate (27 - text.length) ' ')
        "[" ++ ofNat (i + 1) ++ "] + " ++ text ++ pad ++ "\n"
      return (String.join lines, 0)
termination_by structural n => n

/-- Run the commands of a file as a part of the script. -/
def includeFile (path : String) : Nat → Sh Nat
  | 0 => Sh.exhausted
  | n + 1 => do
    let p ← Sh.process
    let files ← Sh.files
    let found ← if path.toList.contains '/' then pure path
      else do
        let candidates := (← Sh.searchPath).map fun d => Sh.inDirectory d path
        match candidates.find? fun c =>
            match files.find p.place (toText c) with
            | .ok (_, .file _) => true
            | .ok (_, .program _) => true
            | _ => false with
        | some c => pure c
        | none => Sh.fail (path ++ ": not found")
    match files.find p.place (toText found) with
    | .error e => Sh.failOpen .input found e
    | .ok (_, item) =>
      let source := Source.ofText (ofBytes item.content).toList p.aliases p.nextDocument
      Sh.modifyProcess fun p => { p with command := some found }
      let status ← Sh.andFinally (runSource false true source 0 n)
        (Sh.modifyProcess fun q => { q with sourceLine := p.sourceLine })
      Sh.modifyProcess fun p => { p with
        skip := match p.skip with
          | .return _ => .nothing
          | skip => skip }
      return status
termination_by structural n => n

end

end Evaluation

end Coordination.Shell
