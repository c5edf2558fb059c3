import Coordination.Shell.Open

/-!
# What utilities share

A utility is a program that runs as a process of its own. It is called by a name, which its
messages start with, and gets its arguments. Options may stand between the operands, up to
one that says that no more follow; names in messages are quoted so that the shell reads them
back.
-/

namespace Coordination.Shell

namespace Utility

/-- End the process. -/
def quit {α : Type} (status : Nat) : Sh α := throw (.gone (.exited status))

/-- Report something. -/
def say (name message : String) : Sh Unit := Sh.write 2 (name ++ ": " ++ message ++ "\n")

/-- Report something and end the process. -/
def die {α : Type} (name message : String) (status : Nat) : Sh α := do
  say name message
  quit status

/-- The hint at the help of a utility. -/
def hint (name : String) : String := "Try '" ++ name ++ " --help' for more information."

/-- Report a misuse, hint at the help and end the process. -/
def misuse {α : Type} (name message : String) (status : Nat) : Sh α :=
  die name (message ++ "\n" ++ hint name) status

/-- Write on the standard output, or end the process. -/
def put (name text : String) : Sh Unit := do
  if text ≠ "" then
    match ← Sh.writeBytes 1 (toBytes text) with
    | .ok () => return ()
    | .error e => die name ("write error: " ++ e.message) 1

/-! ## Quoting -/

/-- Whether a character makes a name need quotes. -/
def isSpecial (c : Char) : Bool :=
  c < ' ' || '~' < c || " !\"$&()*;<=>[^`|'\\?:".toList.contains c

/-- Whether a name can stand in double quotes as it is. -/
def fitsDouble (s : List Char) : Bool :=
  s.all fun c => isDigit c || ('a' ≤ c && c ≤ 'z') || ('A' ≤ c && c ≤ 'Z') ||
    " '%+,-./:]_@".toList.contains c

/-- The letter of a control character that has an escape. -/
def escapeLetter? (c : Char) : Option Char :=
  [('\x07', 'a'), ('\x08', 'b'), ('\x0c', 'f'), ('\n', 'n'), ('\r', 'r'), ('\t', 't'),
    ('\x0b', 'v')].lookup c

/-- The escape of a character that is not printed. -/
def escapeOctal (c : Char) : List Char :=
  let n := c.toNat
  match escapeLetter? c with
  | some letter => ['\\', letter]
  | none => ['\\', Nat.digitChar (n / 64), Nat.digitChar (n / 8 % 8), Nat.digitChar (n % 8)]

/-- The inside of single quotes. Escapes stand in quotes of their own. -/
def quoteInside (escaping : Bool) : List Char → List Char
  | [] => []
  | c :: rest =>
    if c < ' ' ∨ '~' < c then
      (if escaping then [] else ['\'', '$', '\'']) ++ escapeOctal c ++ quoteInside true rest
    else
      if c = '\'' then ['\'', '\\', '\'', '\''] ++ quoteInside false rest
      else (if escaping then ['\'', '\''] else []) ++ c :: quoteInside false rest

/-- A name in quotes. -/
def quoteAlways (s : String) : String :=
  let cs := s.toList
  if cs.contains '\'' && fitsDouble cs then "\"" ++ s ++ "\""
  else "'" ++ String.ofList (quoteInside false cs) ++ "'"

/-- A word in single quotes, with escapes for those and for what is not printed. -/
def quoteWord (s : String) : String :=
  String.ofList ('\'' :: s.toList.flatMap (fun c =>
    if c < ' ' ∨ '~' < c then escapeOctal c
    else if c = '\'' ∨ c = '\\' then ['\\', c]
    else [c]) ++ ['\''])

/-- A name, in quotes if it needs them. -/
def quoteIfNeeded (s : String) : String :=
  match s.toList with
  | [] => quoteAlways s
  | c :: rest =>
    let needs := (c :: rest).any isSpecial || c = '#' || c = '~' ||
      (rest.isEmpty && (c = '\x7b' || c = '\x7d'))
    if needs then quoteAlways s else s

/-! ## Options -/

/-- Whether an option has an argument. -/
inductive Wants where
  | nothing
  | argument
  | optional
  deriving DecidableEq, Repr, Inhabited

/-- The options of a utility. -/
structure Spec where
  /-- The letters, and whether they have arguments. -/
  letters : List (Char × Wants)
  /-- The words and the letters that they stand for. -/
  words : List (String × Char × Wants)
  /-- The status of a misuse. -/
  status : Nat
  /-- What the hint at the help starts with. -/
  usage : String

/-- Report a wrong option, hint at the help and end the process. -/
def Spec.refuse {α : Type} (spec : Spec) (name message : String) : Sh α :=
  die name (message ++ "\n" ++ spec.usage ++ hint name) spec.status

/-- The words of options that every utility has. They end the process. -/
def commonWords : List (String × Char × Wants) :=
  [("help", '\x00', .nothing), ("version", '\x00', .nothing)]

/-- Options as they were given, and the operands. -/
structure Given where
  options : List (Char × String)
  operands : List String

namespace Given

/-- Whether an option was given. -/
def has (g : Given) (c : Char) : Bool := g.options.any fun p => p.1 = c

/-- The argument of an option that was given last. -/
def last? (g : Given) (c : Char) : Option String := g.options.reverse.lookup c

end Given

/-- Read the letters of one argument. The result tells which letter wants the next one. -/
def readLetters (name : String) (spec : Spec) (found : List (Char × String)) :
    List Char → Sh (List (Char × String) × Option Char)
  | [] => return (found, none)
  | c :: rest =>
    match spec.letters.lookup c with
    | none => spec.refuse name ("invalid option -- '" ++ String.singleton c ++ "'")
    | some .nothing => readLetters name spec ((c, "") :: found) rest
    | some .optional => return ((c, String.ofList rest) :: found, none)
    | some .argument =>
      if rest.isEmpty then return (found, some c)
      else return ((c, String.ofList rest) :: found, none)

/-- The word of an option that a text starts or is. All of the argument is given as well. -/
def findWord (name : String) (spec : Spec) (word whole : String) :
    Sh (String × Char × Wants) := do
  let words := spec.words ++ commonWords
  match words.find? fun w => w.1 = word, words.filter fun w => w.1.startsWith word with
  | some w, _ => return w
  | none, [w] => return w
  | none, [] => spec.refuse name ("unrecognized option '" ++ whole ++ "'")
  | none, several =>
    if several.all fun w => some w.2 = several.head?.map Prod.snd then
      return several.headD (word, '\x00', .nothing)
    else
      spec.refuse name ("option '--" ++ word ++ "' is ambiguous; possibilities:" ++
        String.join (several.map fun w => " '--" ++ w.1 ++ "'"))

/-- Read options and operands. What was found is in reverse order. The first operand may
tell that no more options follow. -/
def readArguments (name : String) (spec : Spec) (leading : Bool)
    (found : List (Char × String)) (operands : List String) :
    Nat → List String → Sh Given
  | 0, _ => return ⟨found.reverse, operands.reverse⟩
  | _ + 1, [] => return ⟨found.reverse, operands.reverse⟩
  | n + 1, arg :: rest =>
    let go (found : List (Char × String)) (rest : List String) : Sh Given :=
      readArguments name spec leading found operands n rest
    match arg.toList with
    | ['-', '-'] => return ⟨found.reverse, operands.reverse ++ rest⟩
    | '-' :: '-' :: cs => do
      let word := String.ofList (cs.takeWhile (· ≠ '='))
      let value := cs.drop word.length
      let (full, letter, wants) ← findWord name spec word arg
      let refuse (what : String) : Sh Given :=
        spec.refuse name ("option '--" ++ full ++ "' " ++ what)
      let attached := String.ofList (value.drop 1)
      if letter = '\x00' then
        if value.isEmpty then quit 0 else refuse "doesn't allow an argument"
      else
        match wants, value, rest with
        | .nothing, [], _ => go ((letter, "") :: found) rest
        | .nothing, _, _ => refuse "doesn't allow an argument"
        | .optional, _, _ => go ((letter, attached) :: found) rest
        | .argument, [], [] => refuse "requires an argument"
        | .argument, [], value :: rest => go ((letter, value) :: found) rest
        | .argument, _, _ => go ((letter, attached) :: found) rest
    | '-' :: c :: cs => do
      let (found, wants) ← readLetters name spec found (c :: cs)
      match wants, rest with
      | none, rest => go found rest
      | some c, [] =>
        spec.refuse name ("option requires an argument -- '" ++ String.singleton c ++ "'")
      | some c, value :: rest => go ((c, value) :: found) rest
    | _ =>
      if leading then return ⟨found.reverse, operands.reverse ++ arg :: rest⟩
      else readArguments name spec leading found (arg :: operands) n rest

/-- Read options and operands. -/
def given (name : String) (spec : Spec) (args : List String) : Sh Given :=
  readArguments name spec false [] [] (args.length + 1) args

/-- Read options and operands, with all options before the operands. -/
def givenFirst (name : String) (spec : Spec) (args : List String) : Sh Given :=
  readArguments name spec true [] [] (args.length + 1) args

/-! ## Input -/

/-- The file that is open as the standard input. -/
def inputFile? : Sh (Option (Nat × OpenFile)) := do
  let w ← get
  return (w.process.descriptors.lookup 0).bind fun number =>
    (w.host.opened.lookup number).map (number, ·)

/-- End a utility with a status. Its standard input, if it was used, can only be closed if it
is open. -/
def closeInput (name title : String) (used : Bool) (status : Nat) : Sh Nat := do
  if used ∧ (← inputFile?).isNone then
    say name (title ++ ": Bad file descriptor")
    return 1
  else return status

/-- All that can be read from the standard input. -/
def input : Sh (Except String String) := do
  let w ← get
  match w.process.descriptors.lookup 0 with
  | none => return .error StreamError.badDescriptor.message
  | some number =>
    match w.host.rest number with
    | .error e => return .error e.message
    | .ok bytes => do
      Sh.modifyHost fun h => h.consume number bytes.length
      return .ok (ofBytes bytes)

/-- The content of a file, or of the standard input if the path is a hyphen. -/
def readOperand (path : String) : Sh (Except String String) := do
  if path = "-" then input
  else
    match (← Sh.files).readFrom (← Sh.process).place (toText path) with
    | .ok bytes => return .ok (ofBytes bytes)
    | .error e => return .error (reason e)

/-- The lines of a text, and whether the last one ends. -/
def linesOf (text : String) : List String × Bool :=
  let parts := Text.splitAll '\n' text.toList
  match parts.getLast? with
  | some [] => (parts.dropLast.map String.ofList, true)
  | _ => (parts.map String.ofList, false)

/-- Lines that all end. -/
def unlines (lines : List String) : String := String.join (lines.map (· ++ "\n"))

end Utility

/-- A utility, called by a name with arguments. It leaves a status. -/
abbrev Utility := String → List String → Sh Nat

end Coordination.Shell
