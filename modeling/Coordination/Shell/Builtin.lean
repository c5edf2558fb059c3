import Coordination.Shell.Condition
import Coordination.Shell.Field
import Coordination.Shell.Format
import Coordination.Shell.Mode
import Coordination.Shell.Open
import Coordination.Shell.Reader
import Coordination.Shell.Signal

/-!
# Commands of the shell

The commands that the shell carries out itself and that run no other commands. Each gets its
arguments and gives the text for its standard output and its status; an error interrupts it.
Those that run other commands stand with the evaluation of scripts.
-/

namespace Coordination.Shell

namespace Builtin

/-- What a command leaves: its output and its status. -/
abbrev Result := String × Nat

/-- Nothing to write, and success. -/
def done : Result := ("", 0)

/-- Read options from the front of arguments. Each letter may want an argument of its own.
The options come in reverse order. -/
def readOptions (letters : List (Char × Bool)) (found : List (Char × String)) :
    List String → Sh (List (Char × String) × List String)
  | [] => return (found, [])
  | arg :: rest =>
    match arg.toList with
    | ['-', '-'] => return (found, rest)
    | '-' :: c :: cs => do
      let (found, wants) ← cluster found (c :: cs)
      match wants with
      | none => readOptions letters found rest
      | some c =>
        match rest with
        | [] => Sh.fail ("No arg for -" ++ String.singleton c ++ " option")
        | value :: rest => readOptions letters ((c, value) :: found) rest
    | _ => return (found, arg :: rest)
where
  /-- Read letters that stand together, and tell which one wants the next argument. -/
  cluster (found : List (Char × String)) :
      List Char → Sh (List (Char × String) × Option Char)
    | [] => return (found, none)
    | c :: rest =>
      match letters.lookup c with
      | none => Sh.fail ("Illegal option -" ++ String.singleton c)
      | some false => cluster ((c, "") :: found) rest
      | some true =>
        if rest.isEmpty then return (found, some c)
        else return ((c, String.ofList rest) :: found, none)

/-- Read options that want no arguments, and give the letters in reverse order. -/
def readLetters (letters : String) (args : List String) :
    Sh (List Char × List String) := do
  let (found, rest) ← readOptions (letters.toList.map (·, false)) [] args
  return (found.map Prod.fst, rest)

/-- A text in quotes that the shell reads back. -/
def quoteText (s : String) : String :=
  "'" ++ String.ofList (go s.toList) ++ "'"
where
  /-- Let single quotes stand in double ones. -/
  go : List Char → List Char
    | [] => []
    | '\'' :: rest => '\'' :: '"' :: '\'' :: '"' :: '\'' :: go rest
    | c :: rest => c :: go rest

/-- Sort texts. -/
def sortTexts (texts : List String) : List String := texts.mergeSort fun a b => a ≤ b

/-! ## Texts -/

/-- Write arguments. -/
def echo (args : List String) : Sh Result := return (echoed args, 0)

/-- Write arguments in a format. -/
def printf (args : List String) : Sh Result := do
  let (_, args) ← readLetters "" args
  match args with
  | [] => Sh.fail "usage: printf format [arg ...]"
  | text :: args => do
    let written := format text args
    written.warnings.forM Sh.warn
    match written.failure with
    | some message => do
      Sh.warn message
      Sh.write 1 written.output
      Sh.setStatus 2
      throw .error
    | none => return (written.output, if written.warnings.isEmpty then 0 else 1)

/-- Evaluate a condition. -/
def test (name : String) (args : List String) : Sh Result := do
  let w ← get
  match testStatus ⟨w.host.files, w.process.place⟩ name args with
  | .ok status => return ("", status)
  | .error message => Sh.fail message

/-! ## Directories -/

/-- The path of a place. -/
def placePath (place : Place) : String := if place = [] then "/" else ofText (Files.key place)

/-- The names of a path from the root, without points: a double one takes a name back. -/
def reduceNames (names place : List String) : List String :=
  names.foldl (fun place name =>
    if name = "." then place else if name = ".." then place.dropLast else place ++ [name]) place

/-- Go to a directory if there is one. -/
def enter (path : String) : Sh Bool := do
  let p ← Sh.process
  let text := FilePath.ofText (toText path)
  let place := reduceNames text.names (Files.startOf p.place text)
  match (← Sh.files).find [] (Files.key place ++ "/") with
  | .ok (place, .directory) => do
    let old := placePath p.place
    Sh.modifyProcess fun p => { p with place }
    Sh.assign "OLDPWD" (some old) true
    Sh.assign "PWD" (some (placePath place)) true
    return true
  | _ => return false

/-- Go to the first directory with a name in a list of directories, and tell whether its
place is to be written. -/
def enterFrom (name : String) : List String → Sh (Option Bool)
  | [] => return none
  | directory :: rest => do
    if ← enter (Sh.inDirectory directory name) then return some (directory ≠ "")
    else enterFrom name rest

/-- Change the directory. -/
def cd (args : List String) : Sh Result := do
  let (_, args) ← readLetters "LP" args
  let target ← match args with
    | [] => Sh.value? "HOME"
    | "-" :: _ => Sh.value? "OLDPWD"
    | path :: _ => pure (some path)
  let path := target.getD ""
  let prints := args.head? = some "-"
  let fixed := path.startsWith "/" || path = "." || path = ".." || path.startsWith "./" ||
    path.startsWith "../"
  let name := if path = "" then "." else path
  let listed ← if fixed then pure none else Sh.value? "CDPATH"
  let places := match listed with
    | some (text : String) => (Text.splitAll ':' text.toList).map String.ofList
    | none => []
  match ← enterFrom name places with
  | some written => return (← answer (prints || written), 0)
  | none =>
    if ← enter name then return (← answer prints, 0)
    else Sh.fail ("can't cd to " ++ path)
where
  /-- The place, if it is to be written. -/
  answer (prints : Bool) : Sh String := do
    let place := (← Sh.process).place
    return if prints then placePath place ++ "\n" else ""

/-- Write the directory. -/
def pwd (args : List String) : Sh Result := do
  let _ ← readLetters "LP" args
  return (placePath (← Sh.process).place ++ "\n", 0)

/-- Write or change the mask for new files. -/
def umask (args : List String) : Sh Result := do
  let (letters, args) ← readLetters "S" args
  let mask := (← Sh.process).mask
  match args with
  | [] =>
    let mode := 0o777 ^^^ mask
    return ((if letters.contains 'S' then Mode.symbolic mode else Mode.octal mask) ++ "\n", 0)
  | text :: _ =>
    let isNumber := text.toList.head?.any isDigit
    let clauses := if text.endsWith "," then String.ofList text.toList.dropLast else text
    let changed := if text = "" then some mask
      else if isNumber then
        let (n, rest) := readDigits 8 0 text.toList
        if rest.isEmpty then some n else none
      else (Mode.change clauses 0 false (0o777 ^^^ mask)).map fun mode => 0o777 ^^^ mode
    match changed with
    | none => Sh.fail ((if isNumber then "Illegal number: " else "Illegal mode: ") ++ text)
    | some mask => do
      Sh.modifyProcess fun p => { p with mask := mask % 0o1000 }
      return done

/-! ## Variables -/

/-- Lines for variables, sorted by their names. -/
def variableLines (start : String) (shown : Variable → Bool) : Sh String := do
  let lines := (← Sh.process).bindings.toList.filterMap fun (name, v) =>
    if shown v then
      some (start ++ name ++ match v.value with
        | some value => "=" ++ quoteText value
        | none => "")
    else none
  return String.join ((sortTexts lines).map (· ++ "\n"))

/-- The name of a variable that a text starts with, up to a value. -/
def nameIn (text : String) : Sh String := do
  let name := String.ofList (text.toList.takeWhile (· ≠ '='))
  if isName name then return name else Sh.fail (name ++ ": bad variable name")

/-- Set a variable by the text of an assignment, or declare one by its name. -/
def declare (text : String) (exported : Bool) : Sh String := do
  let name ← nameIn text
  match text.toList.drop name.length with
  | '=' :: value => do
    Sh.assign name (some (String.ofList value)) exported
    return name
  | _ => do
    let p ← Sh.process
    match p.bindings.get? name with
    | some v =>
      if exported then
        Sh.modifyProcess fun p => { p with
          bindings := p.bindings.insert name { v with exported := true } }
      return name
    | none => do
      Sh.assign name none exported
      return name

/-- Export variables, or protect them, or show those that are. -/
def mark (command : String) (args : List String) : Sh Result := do
  let (letters, args) ← readLetters "p" args
  let exported := command = "export"
  if letters.contains 'p' ∨ args.isEmpty then
    let lines ← variableLines (command ++ " ") fun v =>
      if exported then v.exported else v.readOnly
    return (lines, 0)
  else
    args.forM fun arg => do
      let name ← declare arg exported
      if !exported then
        Sh.modifyProcess fun p => { p with
          bindings := match p.bindings.get? name with
            | some v => p.bindings.insert name { v with readOnly := true }
            | none => p.bindings }
    return done

/-- Make variables local to a function. -/
def localize (args : List String) : Sh Result := do
  if (← Sh.process).locals.isEmpty then Sh.fail "not in a function"
  else
    args.forM fun arg => do
      if arg = "-" then Sh.keepOptions
      else
        Sh.keepLocal (← nameIn arg)
        let _ ← declare arg false
    return done

/-- Forget variables or functions. -/
def unset (args : List String) : Sh Result := do
  let (letters, args) ← readLetters "vf" args
  args.forM fun name => do
    if letters.head? = some 'f' then
      Sh.modifyProcess fun p => { p with functions := p.functions.erase name }
    else Sh.unassign (← nameIn name)
  return done

/-! ## Options and arguments -/

/-- Set or clear an option. -/
def setOption (letter : Char) (on : Bool) : Sh Unit :=
  Sh.modifyProcess fun p =>
    let others := p.options.filter (· ≠ letter)
    { p with options := if on then letter :: others else others }

/-- Lines for all options. -/
def optionLines (on : Bool) : Sh String := do
  let options := (← Sh.process).options
  let pad (name : String) : String :=
    name ++ String.ofList (List.replicate (16 - name.length) ' ')
  let lines := optionNames.map fun (name, letter) =>
    if on then pad name ++ (if options.contains letter then "on" else "off")
    else "set " ++ (if options.contains letter then "-o " else "+o ") ++ name
  return (if on then "Current option settings\n" else "") ++
    String.join (lines.map (· ++ "\n"))

/-- What options at the front of arguments say. -/
structure OptionsRead where
  /-- The arguments behind the options. -/
  rest : List String
  /-- Whether options ended the arguments that there were before. -/
  replaces : Bool
  /-- Whether a script is given as an argument. -/
  script : Bool
  output : String

/-- Set options that stand together, and tell the arguments left. -/
def setLetters (starting on : Bool) (read : OptionsRead) : List Char → Sh OptionsRead
  | [] => return read
  | 'o' :: rest =>
    match read.rest with
    | [] => do
      let lines ← optionLines on
      setLetters starting on { read with output := read.output ++ lines } rest
    | name :: args =>
      match optionNames.lookup name with
      | some letter => do
        setOption letter on
        setLetters starting on { read with rest := args } rest
      | none => Sh.fail ("Illegal option -o " ++ name)
  | c :: rest =>
    if starting ∧ c = 'c' then setLetters starting on { read with script := true } rest
    else if starting ∧ c = 'l' then setLetters starting on read rest
    else if (optionNames.any fun p => p.2 = c) then do
      setOption c on
      setLetters starting on read rest
    else Sh.fail ("Illegal option -" ++ String.singleton c)

/-- Read options from the front of the arguments of a shell or of `set`. -/
def readSettings (starting : Bool) : Nat → OptionsRead → Sh OptionsRead
  | 0, read => return read
  | n + 1, read =>
    match read.rest with
    | [] => return read
    | arg :: rest =>
      match arg.toList with
      | ['-'] => do
        if !starting then
          setOption 'x' false
          setOption 'v' false
        return { read with rest }
      | ['-', '-'] => return { read with rest, replaces := true }
      | '-' :: cs => do
        readSettings starting n (← setLetters starting true { read with rest } cs)
      | '+' :: cs => do
        readSettings starting n (← setLetters starting false { read with rest } cs)
      | _ => return read

/-- Set options and arguments. -/
def set (args : List String) : Sh Result := do
  if args.isEmpty then return (← variableLines "" fun v => v.value.isSome, 0)
  else
    let read ← readSettings false (args.length + 1) ⟨args, false, false, ""⟩
    if read.replaces ∨ !read.rest.isEmpty then
      Sh.modifyProcess fun p => { p with arguments := read.rest }
    return (read.output, 0)

/-- Drop arguments. -/
def shift (args : List String) : Sh Result := do
  let count ← match args with
    | [] => pure 1
    | n :: _ => Sh.number n
  let arguments := (← Sh.process).arguments
  if arguments.length < count then Sh.fail "can't shift that many"
  else
    Sh.modifyProcess fun p => { p with arguments := arguments.drop count }
    return done

/-- Read the next option from arguments. -/
def getopts (args : List String) : Sh Result := do
  match args with
  | letters :: name :: given => do
    let p ← Sh.process
    let arguments := if given.isEmpty then p.arguments else given
    let index := (((← Sh.value? "OPTIND").bind decimal?).getD 1)
    let index := if index = 0 ∨ arguments.length + 1 < index then 1 else index
    let silent := letters.startsWith ":"
    let leave (index : Nat) (letter : String) (behind : Option Nat) (status : Nat) :
        Sh Result := do
      Sh.assign "OPTIND" (some (ofNat index)) false
      Sh.assign (← nameIn name) (some letter) false
      Sh.modifyProcess fun p => { p with letters := behind }
      return ("", status)
    -- what is left of the argument at hand
    let current := match p.letters with
      | some behind => ((arguments[index - 2]?).getD "").toList.drop behind
      | none => []
    let (word, rest, index) := match current with
      | c :: cs => ((arguments[index - 2]?).getD "", c :: cs, index)
      | [] =>
        match arguments[index - 1]? with
        | some word =>
          match word.toList with
          | '-' :: c :: cs => (word, c :: cs, index + 1)
          | _ => (word, [], index)
        | none => ("", [], index)
    match rest with
    | [] => leave index "?" none 1
    | c :: cs =>
      if word = "--" then leave index "?" none 1
      else
        let behind := if cs.isEmpty then none else some (word.length - cs.length)
        let wanted := (letters.toList.dropWhile (· ≠ c)).drop 1
        if !letters.toList.contains c ∨ c = ':' then
          if silent then Sh.assign "OPTARG" (some (String.singleton c)) false
          else do
            Sh.write 2 ("Illegal option -" ++ String.singleton c ++ "\n")
            Sh.unassign "OPTARG"
          leave index "?" behind 0
        else if wanted.head? = some ':' then
          match cs, arguments[index - 1]? with
          | [], none =>
            if silent then
              Sh.assign "OPTARG" (some (String.singleton c)) false
              leave index ":" none 0
            else
              Sh.write 2 ("No arg for -" ++ String.singleton c ++ " option\n")
              Sh.unassign "OPTARG"
              leave index "?" none 0
          | [], some value =>
            Sh.assign "OPTARG" (some value) false
            leave (index + 1) (String.singleton c) none 0
          | cs, _ =>
            Sh.assign "OPTARG" (some (String.ofList cs)) false
            leave index (String.singleton c) none 0
        else
          Sh.assign "OPTARG" (some "") false
          leave index (String.singleton c) behind 0
  | _ => Sh.fail "Usage: getopts optstring var [arg...]"

/-! ## Input -/

/-- The first line of a text as characters that may be quoted, how many characters were
read for it, and whether the line ends. Without quoting a backslash is a character. -/
def takeLine (raw : Bool) : List Char → List (Char × Bool) × Nat × Bool
  | [] => ([], 0, false)
  | '\n' :: _ => ([], 1, true)
  | '\\' :: rest =>
    if raw then
      let (line, count, ended) := takeLine raw rest
      (('\\', false) :: line, count + 1, ended)
    else
      match rest with
      | [] => ([], 1, false)
      | '\n' :: rest =>
        let (line, count, ended) := takeLine raw rest
        (line, count + 2, ended)
      | c :: rest =>
        let (line, count, ended) := takeLine raw rest
        ((c, true) :: line, count + 2, ended)
  | c :: rest =>
    let (line, count, ended) := takeLine raw rest
    if c = '\x00' then (line, count + 1, ended) else ((c, false) :: line, count + 1, ended)

/-- Read a line into variables. -/
def read (args : List String) : Sh Result := do
  let (options, names) ← readOptions [('p', true), ('r', false)] [] args
  if names.isEmpty then Sh.fail "arg count"
  else
    let w ← get
    let number := w.process.descriptors.lookup 0
    let bytes := match number.map w.host.rest with
      | some (.ok bytes) => bytes
      | _ => []
    let raw := options.any fun p => p.1 = 'r'
    let (line, count, ended) := takeLine raw (ofBytes bytes).toList
    match number with
    | some number => Sh.modifyHost fun h => h.consume number count
    | none => pure ()
    let separators := (← Sh.separators).getD usualSeparators
    let fields := divideLine separators names.length line
    (names.zip (fields ++ names.map fun _ => [])).forM fun (name, field) => do
      Sh.assign (← nameIn name) (some (String.ofList field)) false
    return ("", if ended then 0 else 1)

/-! ## Names of commands -/

/-- The commands of the shell that functions and programs may replace only by name. -/
def names : List String :=
  [".", ":", "[", "alias", "bg", "break", "cd", "chdir", "command", "continue", "echo",
    "eval", "exec", "exit", "export", "false", "fg", "getopts", "hash", "jobs", "kill",
    "local", "printf", "pwd", "read", "readonly", "return", "set", "shift", "test", "times",
    "trap", "true", "type", "ulimit", "umask", "unalias", "unset", "wait"]

/-- What a name stands for, in words or in short, and the status of the answer. -/
def describe (verbose : Bool) (name : String) : Sh Result := do
  let p ← Sh.process
  let say (long short : String) : Result := ((if verbose then name ++ long else short) ++ "\n", 0)
  if reservedWords.contains name then return say " is a shell keyword" name
  else
    match p.aliases.get? name with
    | some text =>
      return say (" is an alias for " ++ text) ("alias " ++ name ++ "=" ++ quoteText text)
    | none =>
      if (p.functions.get? name).isSome then return say " is a shell function" name
      else if specialBuiltins.contains name then
        return say " is a special shell builtin" name
      else if names.contains name then return say " is a shell builtin" name
      else
        match ← Sh.findProgram name with
        | .ok path =>
          if name.toList.contains '/' then
            match ← Sh.runnable path with
            | .ok true => return say (" is " ++ path) path
            | _ => return missing verbose name
          else return say (" is " ++ path) path
        | .error _ => return missing verbose name
where
  /-- The answer for a name that stands for nothing. -/
  missing (verbose : Bool) (name : String) : Result :=
    (if verbose then name ++ ": not found\n" else "", 127)

/-- Tell what names stand for. -/
def type (args : List String) : Sh Result := do
  let results ← args.mapM (describe true)
  let status := results.foldl (fun status r => status ||| r.2) 0
  return (String.join (results.map Prod.fst), status)

/-- Tell what a name stands for, if that is asked for. -/
def command (args : List String) : Sh Result := do
  let (letters, args) ← readLetters "pvV" args
  let verbose := letters.contains 'V'
  match args with
  | name :: _ =>
    if verbose ∨ letters.contains 'v' then describe (verbose && !letters.contains 'v') name
    else return done
  | [] => return done

/-- Look for programs. -/
def hash (args : List String) : Sh Result := do
  let (letters, args) ← readLetters "r" args
  if letters.contains 'r' then return done
  else
    let mut status := 0
    for name in args do
      match ← Sh.findProgram name with
      | .ok _ => pure ()
      | .error e =>
        if !names.contains name ∧ ((← Sh.process).functions.get? name).isNone then
          Sh.warn (name ++ ": " ++ Sh.whyNotRun e)
          status := 1
    return ("", status)

/-- Define or show aliases. -/
def defineAliases (args : List String) : Sh Result := do
  let p ← Sh.process
  let line (name text : String) : String := name ++ "=" ++ quoteText text ++ "\n"
  if args.isEmpty then
    return (String.join (p.aliases.toList.map fun (name, text) => line name text), 0)
  else
    let mut output := ""
    let mut status := 0
    for arg in args do
      let s := arg.toList
      let name := s.take 1 ++ (s.drop 1).takeWhile (· ≠ '=')
      if name.length < s.length then
        let text := String.ofList (s.drop (name.length + 1))
        Sh.modifyProcess fun p => { p with
          aliases := p.aliases.insert (String.ofList name) text }
      else
        match p.aliases.get? arg with
        | some text => output := output ++ line arg text
        | none =>
          Sh.write 2 ("alias: " ++ arg ++ " not found\n")
          status := 1
    return (output, status)

/-- Forget aliases. -/
def unalias (args : List String) : Sh Result := do
  let (letters, args) ← readLetters "a" args
  if letters.contains 'a' then
    Sh.modifyProcess fun p => { p with aliases := .empty }
    return done
  else
    let mut status := 0
    for name in args do
      if ((← Sh.process).aliases.get? name).isSome then
        Sh.modifyProcess fun p => { p with aliases := p.aliases.erase name }
      else
        Sh.write 2 ("unalias: " ++ name ++ " not found\n")
        status := 1
    return ("", status)

/-! ## Signals and limits -/

/-- Set or show the commands for signals. -/
def trap (args : List String) : Sh Result := do
  let (_, args) ← readLetters "" args
  match args with
  | [] =>
    let traps := (← Sh.process).traps.mergeSort fun a b => a.1 ≤ b.1
    return (String.join (traps.map fun (n, text) =>
      "trap -- " ++ quoteText text ++ " " ++ Signal.name n ++ "\n"), 0)
  | first :: rest => do
    let (action, names) : Option String × List String :=
      if rest.isEmpty ∨ (decimal? first).any (· < Signal.count) then (none, args)
      else if first = "-" then (none, rest)
      else (some first, rest)
    for name in names do
      match Signal.number? 0 name with
      | none =>
        Sh.write 2 ("trap: " ++ name ++ ": bad trap\n")
        return ("", 1)
      | some n =>
        Sh.modifyProcess fun p =>
          let others := p.traps.filter (·.1 ≠ n)
          { p with traps := match action with
              | some text => (n, text) :: others
              | none => others }
    return done

/-- How the signals of `kill` are used. -/
def killUsage : String :=
  "Usage: kill [-s sigspec | -signum | -sigspec] [pid | job]... or\nkill -l [exitstatus]"

/-- The signal that `kill` sends and whether it lists signals, and what follows. -/
def readKill (args : List String) : Sh (Option Nat × Bool × List String) := do
  match args with
  | [] => Sh.fail killUsage
  | first :: rest =>
    if first.startsWith "-" then
      match Signal.number? 1 (String.ofList (first.toList.drop 1)) with
      | some n => return (some n, false, rest)
      | none => do
        let (options, rest) ← readOptions [('l', false), ('s', true)] [] args
        let signals ← (options.filter fun p => p.1 = 's').mapM fun (_, text) => do
          match Signal.number? 1 text with
          | some n => pure n
          | none => Sh.fail ("invalid signal number or name: " ++ text)
        return (signals.head?, options.any fun p => p.1 = 'l', rest)
    else return (none, false, args)

/-- Write the names of signals. -/
def listSignals (args : List String) : Sh Result := do
  match args with
  | [] =>
    let names := (List.range Signal.count).drop 1
    return (String.join ("0\n" :: names.map fun n => Signal.name n ++ "\n"), 0)
  | text :: _ => do
    let n ← Sh.number text
    let n := if 128 < n then n - 128 else n
    if 0 < n ∧ n < Signal.count then return (Signal.name n ++ "\n", 0)
    else Sh.fail ("invalid signal number or exit status: " ++ text)

/-- Write limits. There are none. -/
def ulimit (args : List String) : Sh Result := do
  let (_, args) ← readLetters "HSatfdsmcnlvpwrei" args
  return (if args.isEmpty then "unlimited\n" else "", 0)

/-- Write the times that were used. -/
def times : Sh Result :=
  return ("0m0.000000s 0m0.000000s\n0m0.000000s 0m0.000000s\n", 0)

/-! ## Going elsewhere -/

/-- Skip the rest of loops. -/
def leaveLoop (goesOn : Bool) (args : List String) : Sh Result := do
  let count ← match args with
    | [] => pure 1
    | text :: _ => do
      let n ← Sh.number text
      if n = 0 then Sh.failNumber text else pure n
  let loops := (← Sh.process).loops
  let count := min count loops
  if 0 < count then
    Sh.modifyProcess fun p => { p with skip := if goesOn then .continue count else .break count }
  return done

/-- Skip the rest of a function or a script. -/
def leaveFunction (args : List String) : Sh Result := do
  let status ← match args with
    | [] => do pure (← Sh.process).status
    | text :: _ => Sh.number text
  Sh.modifyProcess fun p => { p with skip := .return !args.isEmpty }
  return ("", status)

/-- End the shell. -/
def exit (args : List String) : Sh Result := do
  let p ← Sh.process
  let status ← match args with
    | [] => pure (p.saved.getD p.status)
    | text :: _ => Sh.number text
  Sh.setStatus (status % 256)
  throw .exit

/-- The commands that run no other commands. -/
def table : List (String × (List String → Sh Result)) :=
  [(":", fun _ => return done), ("[", test "["), ("alias", defineAliases),
    ("break", leaveLoop false),
    ("cd", cd), ("chdir", cd), ("command", command), ("continue", leaveLoop true),
    ("echo", echo), ("exit", exit), ("export", mark "export"),
    ("false", fun _ => return ("", 1)), ("getopts", getopts), ("hash", hash),
    ("bg", fun _ => Sh.fail "No current job"), ("fg", fun _ => Sh.fail "No current job"),
    ("local", localize), ("printf", printf), ("pwd", pwd), ("read", read),
    ("readonly", mark "readonly"), ("return", leaveFunction), ("set", set), ("shift", shift),
    ("test", test "test"), ("times", fun _ => times), ("trap", trap),
    ("true", fun _ => return done), ("type", type), ("ulimit", ulimit), ("umask", umask),
    ("unalias", unalias), ("unset", unset)]

end Builtin

end Coordination.Shell
