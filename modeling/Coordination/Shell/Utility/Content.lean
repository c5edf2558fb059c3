import Coordination.Shell.Condition
import Coordination.Shell.Format
import Coordination.Shell.Utility.Basic

/-!
# Utilities for content

Writing texts, the contents of files and parts of them, and counting what is in them. Those
that take several files go on when one of them cannot be read.
-/

namespace Coordination.Shell

namespace Utility

/-- The operands, or the standard input if there are none. -/
def sources (g : Given) : List String := if g.operands.isEmpty then ["-"] else g.operands

/-! ## Small ones -/

/-- Succeed. -/
def succeed : Utility := fun _ _ => return 0

/-- Fail. -/
def fail : Utility := fun _ _ => return 1

/-- Read the options of `echo`: whether a line ends the text and escapes are replaced. -/
def echoOptions (newline escapes : Bool) : List String → Bool × Bool × List String
  | [] => (newline, escapes, [])
  | arg :: rest =>
    match arg.toList with
    | '-' :: c :: cs =>
      if (c :: cs).all fun c => c = 'n' || c = 'e' || c = 'E' then
        let newline := newline && !(c :: cs).contains 'n'
        let escapes : Bool :=
          (c :: cs).foldl (fun (e : Bool) c => if c = 'n' then e else c = 'e') escapes
        echoOptions newline escapes rest
      else (newline, escapes, arg :: rest)
    | _ => (newline, escapes, arg :: rest)

/-- Write arguments. -/
def echo : Utility := fun name args => do
  let (newline, escapes, args) := echoOptions true false args
  let text := " ".intercalate args
  if escapes then
    let (out, stopped) := unescape (text.length + 1) text.toList
    put name (String.ofList out ++ (if newline && !stopped then "\n" else ""))
  else put name (text ++ (if newline then "\n" else ""))
  return 0

/-- Write arguments in a format. -/
def printf : Utility := fun name args => do
  match args with
  | [] => misuse name "missing operand" 1
  | text :: args => do
    let written := Coordination.Shell.format text args
    put name written.output
    written.warnings.forM (say name)
    match written.failure with
    | some message => die name message 1
    | none => return if written.warnings.isEmpty then 0 else 1

/-- Evaluate a condition. -/
def test (calledBracket : Bool) : Utility := fun name args => do
  let w ← get
  let view : Condition.View := ⟨w.host.files, w.process.place⟩
  match testStatus view (if calledBracket then "[" else "test") args with
  | .ok status => return status
  | .error "missing ]" => die name "missing ']'" 2
  | .error message => die name message 2

/-- The time of an interval in microseconds. -/
def interval? (text : String) : Option Nat :=
  match readReal text.toList with
  | some (.finite false m, rest, _) =>
    let unit := match rest with
      | [] => some 1
      | ['s'] => some 1
      | ['m'] => some 60
      | ['h'] => some 3600
      | ['d'] => some 86400
      | _ => none
    unit.map fun unit =>
      let (n, d) := m.toRatio
      n * unit * 1000000 / d
  | some (.infinite false, [], _) => some 1000000000000000
  | _ => none

/-- Let time pass. A process that is looked at before it wakes is still there. -/
def sleepFor (microseconds : Nat) : Sh Unit := do
  let w ← get
  let clock := w.host.clock + microseconds
  Sh.modifyHost fun h => { h with clock }
  match w.deadline with
  | some deadline => if deadline < clock then throw (.gone .late)
  | none => pure ()

/-- Let time pass. -/
def sleep : Utility := fun name args => do
  let g ← given name ⟨[], [], 1, ""⟩ args
  if g.operands.isEmpty then misuse name "missing operand" 1
  else
    let times := g.operands.map interval?
    if times.contains none then
      for (operand, time) in g.operands.zip times do
        if time.isNone then say name ("invalid time interval " ++ quoteWord operand)
      Sh.write 2 (hint name ++ "\n")
      return 1
    else
      sleepFor ((times.filterMap id).foldl (· + ·) 0)
      return 0

/-- Write the directory. -/
def pwd : Utility := fun name args => do
  let _ ← given name ⟨[('L', .nothing), ('P', .nothing)],
    [("logical", 'L', .nothing), ("physical", 'P', .nothing)], 1, ""⟩ args
  let place := (← Sh.process).place
  put name ((if place = [] then "/" else ofText (Files.key place)) ++ "\n")
  return 0

/-- Write the variables that programs get to see. -/
def printenv : Utility := fun name args => do
  let g ← givenFirst name ⟨[('0', .nothing)], [("null", '0', .nothing)], 2, ""⟩ args
  let environment ← Sh.environment
  if g.operands.isEmpty then
    put name (unlines (environment.map fun (name, value) => name ++ "=" ++ value))
    return 0
  else
    let values := g.operands.map fun operand => environment.lookup operand
    put name (unlines (values.filterMap id))
    return if values.all Option.isSome then 0 else 1

/-- Write a line again and again, until nobody reads it any more. -/
def yes : Utility := fun name args => do
  let g ← given name ⟨[], [], 1, ""⟩ args
  let line := (if g.operands.isEmpty then "y" else " ".intercalate g.operands) ++ "\n"
  put name (String.join (List.replicate (Host.pipeRoom / line.length + 1) line))
  throw (.gone (.killed 13))

/-! ## Whole contents -/

/-- The options of `cat`. -/
def catSpec : Spec where
  letters := [('A', .nothing), ('b', .nothing), ('e', .nothing), ('E', .nothing),
    ('n', .nothing), ('s', .nothing), ('t', .nothing), ('T', .nothing), ('u', .nothing),
    ('v', .nothing)]
  words := [("number-nonblank", 'b', .nothing), ("number", 'n', .nothing),
    ("squeeze-blank", 's', .nothing), ("show-nonprinting", 'v', .nothing),
    ("show-ends", 'E', .nothing), ("show-tabs", 'T', .nothing), ("show-all", 'A', .nothing)]
  status := 1
  usage := ""

/-- A number at the start of a line. -/
def lineNumber (n : Nat) : String :=
  let digits := ofNat n
  String.ofList (List.replicate (6 - digits.length) ' ') ++ digits ++ "\t"

/-- A line with its characters shown. -/
def showLine (g : Given) (line : String) : String :=
  let tabs := g.has 'T' || g.has 'A' || g.has 't'
  let hidden := g.has 'v' || g.has 'A' || g.has 'e' || g.has 't'
  let caret (n : Nat) : List Char :=
    if n < 32 then ['^', Char.ofNat (n + 64)] else if n = 127 then ['^', '?'] else [Char.ofNat n]
  String.ofList (line.toList.flatMap fun c =>
    if c = '\t' then (if tabs then ['^', 'I'] else [c])
    else if !hidden then [c]
    else if c.toNat < 128 then caret c.toNat
    else 'M' :: '-' :: caret (c.toNat - 128))

/-- Lines with numbers and marks, from a number on, and the next number. -/
def showLines (g : Given) (blank : Bool) (n : Nat) : List String → List String × Bool × Nat
  | [] => ([], blank, n)
  | line :: rest =>
    if line = "" ∧ blank ∧ g.has 's' then showLines g true n rest
    else
      let numbered := if g.has 'b' then line ≠ "" else g.has 'n'
      let shown := (if numbered then lineNumber n else "") ++ showLine g line
      let (lines, blank, n) := showLines g (line = "") (if numbered then n + 1 else n) rest
      (shown :: lines, blank, n)

/-- Whether the standard output goes on writing to the file that is read. -/
def readsItself (path : String) : Sh Bool := do
  let w ← get
  match w.host.files.find w.process.place (toText path),
      (w.process.descriptors.lookup 1).bind fun n => w.host.opened.lookup n with
  | .ok (place, .file content), some f =>
    return f.channel = .file place && content ≠ [] && (f.appends || 0 < f.position)
  | _, _ => return false

/-- Write contents one after another. -/
def cat : Utility := fun name args => do
  let g ← given name catSpec args
  if ((← Sh.process).descriptors.lookup 1).isNone then
    die name "standard output: Bad file descriptor" 1
  else
    let plain := !("AbeEnstTv".toList.any g.has)
    let ending := (if g.has 'E' || g.has 'e' || g.has 'A' then "$" else "") ++ "\n"
    let mut status := 0
    let mut open_ := ""
    let mut blank := false
    let mut number := 1
    for path in sources g do
      if path ≠ "-" ∧ (← readsItself path) then
        say name (quoteIfNeeded path ++ ": input file is output file")
        status := 1
      else
        match ← readOperand path with
        | .ok content =>
          if plain then put name content
          else
            let (lines, ended) := linesOf (open_ ++ content)
            let whole := if ended then lines else lines.dropLast
            let (shown, b, n) := showLines g blank number whole
            put name (String.join (shown.map (· ++ ending)))
            open_ := if ended then "" else lines.getLast?.getD ""
            blank := b
            number := n
        | .error e => do
          say name (quoteIfNeeded path ++ ": " ++ e)
          status := 1
    if open_ ≠ "" then put name (String.join (showLines g blank number [open_]).1)
    closeInput name "closing standard input" ((sources g).contains "-") status

/-- Write contents with their lines in reverse order. -/
def tac : Utility := fun name args => do
  let g ← given name ⟨[], [], 1, ""⟩ args
  let mut status := 0
  for path in sources g do
    match ← readOperand path with
    | .ok content => do
      let (lines, ended) := linesOf content
      let pieces := lines.map (· ++ "\n")
      let pieces := if ended then pieces
        else lines.dropLast.map (· ++ "\n") ++ lines.getLast?.toList
      put name (String.join pieces.reverse)
    | .error e => do
      let title := if path = "-" then quoteAlways "standard input" else quoteIfNeeded path
      if e = "Is a directory" then say name (title ++ ": read error: Invalid argument")
      else if path = "-" then say name (title ++ ": read error: " ++ e)
      else say name ("failed to open " ++ quoteAlways path ++ " for reading: " ++ e)
      status := 1
  closeInput name "-" ((sources g).contains "-") status

/-- Copy the standard input to the standard output and to files. -/
def tee : Utility := fun name args => do
  let g ← given name ⟨[('a', .nothing), ('i', .nothing), ('p', .nothing)],
    [("append", 'a', .nothing), ("ignore-interrupts", 'i', .nothing)], 1, ""⟩ args
  let mut status := 0
  let mut numbers : List (String × Nat) := []
  for path in g.operands do
    match ← Sh.openFile (if g.has 'a' then .append else .output) path with
    | .ok number => numbers := numbers ++ [(path, number)]
    | .error e => do
      say name (quoteIfNeeded path ++ ": " ++ reason e)
      status := 1
  match ← input with
  | .error e => do
    say name ("read error: " ++ e)
    closeInput name "standard input" true 1
  | .ok text => do
    put name text
    for (path, number) in numbers do
      match (← get).host.write number (toBytes text) with
      | .ok h => Sh.modifyHost fun _ => h
      | .error e => do
        say name (quoteIfNeeded path ++ ": " ++ e.message)
        status := 1
    return status

/-! ## Counting -/

/-- The number of words of a text. -/
def countWords (inWord : Bool) : List Char → Nat
  | [] => if inWord then 1 else 0
  | c :: rest =>
    if isSpace c then (if inWord then 1 else 0) + countWords false rest else countWords true rest

/-- The greatest width of a line of a text, where a tab goes on to the next multiple of
eight. The width is counted from a column on. -/
def widest (best column : Nat) : List Char → Nat
  | [] => max best column
  | c :: rest =>
    if c = '\n' ∨ c = '\r' ∨ c = '\x0c' then widest (max best column) 0 rest
    else if c = '\t' then widest best (column + 8 - column % 8) rest
    else widest best (if ' ' ≤ c ∧ c ≤ '~' then column + 1 else column) rest

/-- The counts of a text: lines, words, characters, bytes and the widest line. -/
def counts (text : String) : List Nat :=
  let cs := text.toList
  [(cs.filter (· = '\n')).length, countWords false cs, cs.length, cs.length, widest 0 0 cs]

/-- The counts of several texts together. -/
def addCounts : List Nat → List Nat → List Nat
  | [a, b, c, d, e], [a', b', c', d', e'] => [a + a', b + b', c + c', d + d', max e e']
  | a, _ => a

/-- The options of `wc`. -/
def wcSpec : Spec where
  letters := [('c', .nothing), ('l', .nothing), ('L', .nothing), ('m', .nothing),
    ('w', .nothing)]
  words := [("bytes", 'c', .nothing), ("chars", 'm', .nothing), ("lines", 'l', .nothing),
    ("words", 'w', .nothing), ("max-line-length", 'L', .nothing), ("total", 'T', .argument)]
  status := 1
  usage := ""

/-- The size of what a source leads to, if there is anything. What is no file has none. -/
def sourceSize (path : String) : Sh (Option (Option Nat)) := do
  let size (item : FileItem) : Option Nat :=
    match item with
    | .file content => some content.length
    | _ => none
  let files ← Sh.files
  if path = "-" then
    return (← inputFile?).map fun (_, f) =>
      match f.channel with
      | .file place => (files.item? place).bind size
      | _ => none
  else
    match files.find (← Sh.process).place (toText path) with
    | .ok (_, item) => return some (size item)
    | .error _ => return none

/-- How wide the columns of counts are for sources with sizes. -/
def countWidth (sizes : List (Option (Option Nat))) : Nat :=
  let known := sizes.filterMap id
  let digits := (ofNat ((known.filterMap id).foldl (· + ·) 0)).length
  if known.contains none then max digits 7 else digits

/-- Count lines, words and bytes. -/
def wc : Utility := fun name args => do
  let g ← given name wcSpec args
  let wanted := "lwmcL".toList.map g.has
  let wanted := if wanted.any id then wanted else [true, true, false, true, false]
  let totals := (g.last? 'T').getD "auto"
  let single := (wanted.filter id).length = 1 && (sources g).length = 1
  let sizes ← (sources g).mapM sourceSize
  let width := if single || totals = "only" then 1 else countWidth sizes
  let writeRow (row : List Nat) (title : String) : Sh Unit := do
    let cells := ((row.zip wanted).filter (·.2)).map fun (n, _) =>
      let digits := ofNat n
      String.ofList (List.replicate (width - digits.length) ' ') ++ digits
    put name (" ".intercalate cells ++ title ++ "\n")
  let mut status := 0
  let mut sums := [0, 0, 0, 0, 0]
  for path in sources g do
    let title := if g.operands.isEmpty then ""
      else " " ++ (if path.toList.contains '\n' then quoteAlways path else path)
    let source := if g.operands.isEmpty then quoteAlways "standard input"
      else quoteIfNeeded path
    if path = "" then
      say name "invalid zero-length file name"
      status := 1
    else
      let read ← readOperand path
      let opened := match read with
        | .ok _ => true
        | .error e => path = "-" || e = "Is a directory"
      match read with
      | .ok _ => pure ()
      | .error e => do
        say name (source ++ ": " ++ e)
        status := 1
      if opened then
        let row := match read with
          | .ok text => counts text
          | .error _ => [0, 0, 0, 0, 0]
        sums := addCounts sums row
        if totals ≠ "only" then writeRow row title
  let totaled := if totals = "auto" then (sources g).length > 1 else totals ≠ "never"
  if totaled then writeRow sums (if totals = "only" then "" else " total")
  closeInput name "-" ((sources g).contains "-") status

/-! ## Parts -/

/-- The amount of an option with the factor of its suffix. -/
def amount? (text : String) : Option Nat :=
  let (n, rest) := readDigits 10 0 text.toList
  if !(text.toList.head?.any isDigit) then none
  else
    (match rest with
      | [] => some 1
      | ['b'] => some 512
      | ['k'] => some 1024
      | ['K'] => some 1024
      | ['k', 'B'] => some 1000
      | ['m'] => some 1048576
      | ['M'] => some 1048576
      | _ => none).map (n * ·)

/-- The options of `head`. Those of `tail` are more. -/
def partSpec : Spec where
  letters := [('c', .argument), ('n', .argument), ('q', .nothing), ('v', .nothing),
    ('z', .nothing)]
  words := [("bytes", 'c', .argument), ("lines", 'n', .argument), ("quiet", 'q', .nothing),
    ("silent", 'q', .nothing), ("verbose", 'v', .nothing), ("zero-terminated", 'z', .nothing)]
  status := 1
  usage := ""

/-- Write a first option of digits in the long way. -/
def longWay : List String → List String
  | [] => []
  | arg :: rest =>
    match arg.toList with
    | '-' :: c :: cs =>
      if isDigit c then
        let digits := (c :: cs).takeWhile isDigit
        match (c :: cs).drop digits.length with
        | [] => "-n" :: String.ofList digits :: rest
        | ['c'] => "-c" :: String.ofList digits :: rest
        | ['l'] => "-n" :: String.ofList digits :: rest
        | ['q'] => "-q" :: "-n" :: String.ofList digits :: rest
        | ['v'] => "-v" :: "-n" :: String.ofList digits :: rest
        | _ => arg :: rest
      else arg :: rest
    | _ => arg :: rest

/-- Pieces of a text: its lines with their ends, or its characters. -/
def piecesOf (bytes : Bool) (text : String) : List String :=
  if bytes then text.toList.map String.singleton
  else
    let (lines, ended) := linesOf text
    if ended then lines.map (· ++ "\n")
    else lines.dropLast.map (· ++ "\n") ++ lines.getLast?.toList

/-- Give back what was read from the standard input behind the part that was written, if
the input is a file. -/
def giveBack (text written : String) : Sh Unit := do
  match ← inputFile? with
  | some (number, f) =>
    match f.channel with
    | .file _ =>
      if written.isPrefixOf text then
        Sh.modifyHost fun h =>
          h.moveTo number (f.position - (text.length - written.length))
    | _ => pure ()
  | none => pure ()

/-- Write a part of each source. If nothing is open as the standard input, that is told in
words of its own. -/
def writeParts (name : String) (g : Given) (unread : String) (part : String → String) :
    Sh Nat := do
  let many := (g.operands.length > 1 || g.has 'v') && !g.has 'q'
  let mut status := 0
  let mut first := true
  for path in sources g do
    let title := if path = "-" then "standard input" else path
    let heading := (if first then "" else "\n") ++ "==> " ++ title ++ " <==\n"
    match ← readOperand path with
    | .ok text => do
      let written := part text
      put name ((if many then heading else "") ++ written)
      if path = "-" ∧ !many then giveBack text written
      first := false
    | .error e => do
      if e = "Is a directory" ∨ path = "-" then
        if many then put name heading
        first := false
        let access := if e = "Is a directory" then "error reading " else unread
        say name (access ++ quoteAlways title ++ ": " ++ e)
      else say name ("cannot open " ++ quoteAlways path ++ " for reading: " ++ e)
      status := 1
  closeInput name "-" ((sources g).contains "-") status

/-- What an option of `head` or `tail` asks for: pieces of bytes or lines, a sign and an
amount. -/
def readPart (name : String) (g : Given) : Sh (Bool × Option Char × Nat) := do
  let chosen := g.options.reverse.find? fun p => p.1 = 'c' || p.1 = 'n'
  let (bytes, text) : Bool × String := match chosen with
    | some (letter, text) => (letter = 'c', text)
    | none => (false, "10")
  let (sign, digits) := match text.toList with
    | '-' :: rest => (some '-', String.ofList rest)
    | '+' :: rest => (some '+', String.ofList rest)
    | _ => (none, text)
  match amount? digits with
  | some n => return (bytes, sign, n)
  | none =>
    die name ("invalid number of " ++ (if bytes then "bytes" else "lines") ++ ": " ++
      quoteWord text) 1

/-- Write the first lines. -/
def head : Utility := fun name args => do
  let g ← given name partSpec (longWay args)
  let (bytes, sign, n) ← readPart name g
  writeParts name g "error reading " fun text =>
    let pieces := piecesOf bytes text
    String.join (if sign = some '-' then pieces.take (pieces.length - n) else pieces.take n)

/-- Write the last lines. -/
def tail : Utility := fun name args => do
  let args := match args with
    | arg :: rest =>
      match arg.toList with
      | '+' :: c :: cs =>
        if isDigit c ∧ cs.all isDigit ∧ rest.length ≤ 1 then "-n" :: arg :: rest else args
      | _ => args
    | [] => []
  let spec := { partSpec with
    letters := partSpec.letters ++ [('f', .nothing), ('F', .nothing), ('s', .argument)] }
  let g ← given name spec (longWay args)
  match g.last? 's' with
  | some text =>
    if (interval? text).isNone then die name ("invalid number of seconds: " ++ quoteWord text) 1
  | none => pure ()
  let (bytes, sign, n) ← readPart name g
  writeParts name g "cannot fstat " fun text =>
    let pieces := piecesOf bytes text
    String.join (if sign = some '+' then pieces.drop (n - 1)
      else pieces.drop (pieces.length - n))

end Utility

end Coordination.Shell
