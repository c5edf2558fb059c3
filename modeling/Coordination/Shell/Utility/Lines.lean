import Coordination.Number.Binary64
import Coordination.Shell.Pattern
import Coordination.Shell.Utility.Content

/-!
# Utilities for lines

Sorting, choosing, cutting and joining lines, and replacing characters.
-/

namespace Coordination.Shell

namespace Utility

/-- Read a source, or report that it cannot be read. -/
def readSource (name path : String) : Sh (Option String) := do
  match ← readOperand path with
  | .ok text => return some text
  | .error e => do
    say name (quoteIfNeeded path ++ ": " ++ e)
    return none

/-! ## Sorting -/

/-- How a part of a line is compared. -/
structure SortOrder where
  numeric : Bool
  reversed : Bool
  folded : Bool
  blanks : Bool
  deriving DecidableEq, Repr, Inhabited

/-- A part of a line: where it starts and ends, in fields and characters from one on. -/
structure SortKey where
  firstField : Nat
  firstChar : Nat
  lastField : Option Nat
  lastChar : Nat
  order : SortOrder
  /-- Whether the part has an order of its own. -/
  special : Bool
  deriving Repr, Inhabited

/-- Set what a letter says about an order. -/
def orderLetter? (o : SortOrder) : Char → Option SortOrder
  | 'n' => some { o with numeric := true }
  | 'r' => some { o with reversed := true }
  | 'f' => some { o with folded := true }
  | 'b' => some { o with blanks := true }
  | 'd' => some o
  | 'i' => some o
  | _ => none

/-- The order that letters describe. -/
def orderOf? (o : SortOrder) : List Char → Option SortOrder
  | [] => some o
  | c :: rest => (orderLetter? o c).bind fun o => orderOf? o rest

/-- The end of a key: the field, the character, and the letters. -/
def readKeyEnd (s : List Char) : Option (Nat × Nat × List Char) :=
  let (field, rest) := readDigits 10 0 s
  if !(s.head?.any isDigit) then none
  else
    match rest with
    | '.' :: rest =>
      let (c, rest) := readDigits 10 0 rest
      some (field, c, rest)
    | rest => some (field, 0, rest)

/-- The key that a text describes. -/
def readKey (text : String) : Option SortKey := do
  let plain : SortOrder := ⟨false, false, false, false⟩
  let s := text.toList
  let start := s.takeWhile (· ≠ ',')
  let (field, c, letters) ← readKeyEnd start
  let order ← orderOf? plain letters
  match s.drop start.length with
  | [] => some ⟨field, max c 1, none, 0, order, order ≠ plain⟩
  | _ :: rest => do
    let (last, lastChar, more) ← readKeyEnd rest
    let order ← orderOf? order more
    some ⟨field, max c 1, some last, lastChar, order, order ≠ plain⟩

/-- The positions at which the fields of a line start, and the ends of the fields. -/
def fieldSpans (separator : Option Char) (line : List Char) : List (Nat × Nat) :=
  match separator with
  | some c =>
    let parts := Text.splitAll c line
    (parts.foldl (fun (spans, at_) part =>
      (spans ++ [(at_, at_ + part.length)], at_ + part.length + 1)) (([] : List (Nat × Nat)), 0)).1
  | none => go 0 (line.length + 1) line
where
  /-- Fields that start with the blanks before them. -/
  go (at_ : Nat) : Nat → List Char → List (Nat × Nat)
    | 0, _ => []
    | _, [] => []
    | n + 1, s =>
      let blanks := s.takeWhile isBlank
      let text := (s.drop blanks.length).takeWhile fun c => !isBlank c
      let next := at_ + blanks.length + text.length
      (at_, next) :: go next n (s.drop (blanks.length + text.length))

/-- The part of a line that a key means. -/
def keyText (separator : Option Char) (k : SortKey) (line : List Char) : List Char :=
  let spans := fieldSpans separator line
  let skipBlanks (at_ : Nat) : Nat :=
    if k.order.blanks then at_ + ((line.drop at_).takeWhile isBlank).length else at_
  let start := match spans[k.firstField - 1]? with
    | some (at_, _) => skipBlanks at_ + (k.firstChar - 1)
    | none => line.length
  let stop := match k.lastField with
    | none => line.length
    | some field =>
      match spans[field - 1]? with
      | some (at_, end_) => if k.lastChar = 0 then end_ else skipBlanks at_ + k.lastChar
      | none => line.length
  (line.take stop).drop start

/-- The number that a text starts with, as a whole number of millionths of a millionth. -/
def leadingNumber (s : List Char) : Int :=
  let s := s.dropWhile isBlank
  let (negative, s) := match s with
    | '-' :: rest => (true, rest)
    | s => (false, s)
  let (whole, rest) := readDigits 10 0 s
  let fraction := match rest with
    | '.' :: rest => (rest.takeWhile isDigit).take 12
    | _ => []
  let behind := (readDigits 10 0 (fraction ++ List.replicate (12 - fraction.length) '0')).1
  let n : Int := whole * 1000000000000 + behind
  if negative then -n else n

/-- Compare texts in an order. -/
def compareIn (o : SortOrder) (a b : List Char) : Ordering :=
  let result :=
    if o.numeric then compare (leadingNumber a) (leadingNumber b)
    else
      let prepare (s : List Char) : String :=
        let s := if o.blanks then s.dropWhile isBlank else s
        String.ofList (if o.folded then s.map Char.toUpper else s)
      compare (prepare a) (prepare b)
  if o.reversed then result.swap else result

/-- The options of `sort`. -/
def sortSpec : Spec where
  letters := [('b', .nothing), ('c', .nothing), ('C', .nothing), ('d', .nothing),
    ('f', .nothing), ('g', .nothing), ('h', .nothing), ('i', .nothing), ('k', .argument),
    ('m', .nothing), ('M', .nothing), ('n', .nothing), ('o', .argument), ('r', .nothing),
    ('R', .nothing), ('s', .nothing), ('S', .argument), ('t', .argument), ('T', .argument),
    ('u', .nothing), ('V', .nothing), ('z', .nothing)]
  words := [("ignore-leading-blanks", 'b', .nothing), ("ignore-case", 'f', .nothing),
    ("numeric-sort", 'n', .nothing), ("reverse", 'r', .nothing), ("key", 'k', .argument),
    ("output", 'o', .argument), ("stable", 's', .nothing), ("unique", 'u', .nothing),
    ("field-separator", 't', .argument)]
  status := 2
  usage := ""

/-- Sort lines. -/
def sort : Utility := fun name args => do
  let g ← given name sortSpec args
  let separator ← match g.last? 't' with
    | none => pure none
    | some text =>
      match text.toList with
      | [c] => pure (some c)
      | ['\\', '0'] => pure (some '\x00')
      | [] => die name "empty tab" 2
      | _ => die name ("multi-character tab " ++ quoteAlways text) 2
  let order : SortOrder := ⟨g.has 'n' || g.has 'g', g.has 'r', g.has 'f', g.has 'b'⟩
  let keys ← (g.options.filter fun p => p.1 = 'k').mapM fun (_, text) => do
    match readKey text with
    | none =>
      die name ("invalid number at field start: invalid count at start of " ++ quoteAlways text) 2
    | some k =>
      if k.firstField = 0 then
        die name ("-: invalid field specification " ++ quoteAlways text) 2
      else pure (if k.special then k else { k with order })
  let mut lines : List String := []
  for path in sources g do
    match ← readOperand path with
    | .ok text => lines := lines ++ (linesOf text).1
    | .error e =>
      die name ((if e = "Is a directory" then "read failed: "
        else if path = "-" then "stat failed: " else "cannot read: ") ++
          quoteIfNeeded path ++ ": " ++ e) 2
  let byKeys (a b : String) : Ordering :=
    if keys.isEmpty then compareIn order a.toList b.toList
    else keys.foldl (fun found k =>
      found.then (compareIn k.order (keyText separator k a.toList)
        (keyText separator k b.toList))) .eq
  let full (a b : String) : Ordering :=
    if g.has 's' || g.has 'u' then byKeys a b
    else
      let last := compare a b
      (byKeys a b).then (if g.has 'r' then last.swap else last)
  if g.has 'c' ∨ g.has 'C' then
    let path := (sources g).headD "-"
    let wrong := (lines.zip (lines.drop 1)).zipIdx.find? fun ((a, b), _) =>
      (if g.has 'u' then byKeys a b ≠ .lt else full a b = .gt)
    match wrong with
    | some ((_, b), i) =>
      if g.has 'c' then say name (path ++ ":" ++ ofNat (i + 2) ++ ": disorder: " ++ b)
      return 1
    | none => return 0
  else
    let sorted := lines.mergeSort fun a b => full a b ≠ .gt
    let sorted := if g.has 'u' then dropSame byKeys none sorted else sorted
    match g.last? 'o' with
    | none => put name (unlines sorted)
    | some path =>
      match ← Sh.openFile .output path with
      | .error e => die name ("open failed: " ++ quoteIfNeeded path ++ ": " ++ reason e) 2
      | .ok number =>
        match (← get).host.write number (toBytes (unlines sorted)) with
        | .ok host => Sh.modifyHost fun _ => host
        | .error e => die name ("write failed: " ++ quoteIfNeeded path ++ ": " ++ e.message) 2
    return 0
where
  /-- Drop lines that are the same as the line before them. -/
  dropSame (cmp : String → String → Ordering) (before : Option String) :
      List String → List String
    | [] => []
    | line :: rest =>
      if before.any fun b => cmp b line = .eq then dropSame cmp before rest
      else line :: dropSame cmp (some line) rest

/-! ## Runs of lines -/

/-- The options of `uniq`. -/
def uniqSpec : Spec where
  letters := [('c', .nothing), ('d', .nothing), ('D', .nothing), ('f', .argument),
    ('i', .nothing), ('s', .argument), ('u', .nothing), ('w', .argument), ('z', .nothing)]
  words := [("count", 'c', .nothing), ("repeated", 'd', .nothing), ("unique", 'u', .nothing),
    ("ignore-case", 'i', .nothing), ("skip-fields", 'f', .argument),
    ("skip-chars", 's', .argument), ("check-chars", 'w', .argument)]
  status := 1
  usage := ""

/-- Runs of lines with the same part, each with its first line and its length. -/
def runsOf (part : String → String) : List String → List (String × Nat)
  | [] => []
  | line :: rest =>
    match runsOf part rest with
    | (next, count) :: runs =>
      if part line = part next then (line, count + 1) :: runs
      else (line, 1) :: (next, count) :: runs
    | [] => [(line, 1)]

/-- Write each run of lines once. -/
def uniq : Utility := fun name args => do
  let g ← given name uniqSpec args
  let amount (letter : Char) : Sh (Option Nat) := do
    match g.last? letter with
    | none => return none
    | some text =>
      match decimal? text with
      | some n => return some n
      | none =>
        die name (text ++ ": invalid number of " ++
          (if letter = 'f' then "fields to skip" else if letter = 's' then "bytes to skip"
            else "bytes to compare")) 1
  let fields ← amount 'f'
  let skipped ← amount 's'
  let width ← amount 'w'
  let skipField (s : List Char) : List Char :=
    (s.dropWhile isBlank).dropWhile fun c => !isBlank c
  let part (line : String) : String :=
    let s := ((List.range (fields.getD 0)).foldl (fun s _ => skipField s) line.toList)
    let s := s.drop (skipped.getD 0)
    let s := match width with
      | some n => s.take n
      | none => s
    String.ofList (if g.has 'i' then s.map Char.toLower else s)
  match g.operands with
  | _ :: _ :: extra :: _ => misuse name ("extra operand " ++ quoteWord extra) 1
  | operands => do
    let path := operands.headD "-"
    match ← readOperand path with
    | .error e =>
      die name ((if e = "Is a directory" ∨ path = "-" then "error reading " ++ quoteAlways path
        else quoteIfNeeded path) ++ ": " ++ e) 1
    | .ok text => do
      let shown := (runsOf part (linesOf text).1).filter fun (_, count) =>
        (!g.has 'd' || count > 1) && (!g.has 'u' || count = 1)
      let out := unlines (shown.map fun (line, count) =>
        if g.has 'c' then
          let digits := ofNat count
          String.ofList (List.replicate (7 - digits.length) ' ') ++ digits ++ " " ++ line
        else line)
      match operands.drop 1 with
      | [] => put name out
      | target :: _ =>
        match ← Sh.openFile .output target with
        | .error e => die name (quoteIfNeeded target ++ ": " ++ reason e) 1
        | .ok number =>
          match (← get).host.write number (toBytes out) with
          | .ok host => Sh.modifyHost fun _ => host
          | .error e => die name ("write error: " ++ e.message) 1
      return 0

/-! ## Parts of lines -/

/-- The options of `cut`. -/
def cutSpec : Spec where
  letters := [('b', .argument), ('c', .argument), ('d', .argument), ('f', .argument),
    ('n', .nothing), ('s', .nothing), ('z', .nothing)]
  words := [("bytes", 'b', .argument), ("characters", 'c', .argument),
    ("delimiter", 'd', .argument), ("fields", 'f', .argument),
    ("only-delimited", 's', .nothing), ("output-delimiter", 'o', .argument),
    ("complement", 'C', .nothing)]
  status := 1
  usage := ""

/-- Ranges of positions from one on. A missing end is no end. -/
abbrev Ranges := List (Nat × Option Nat)

/-- Whether a position is in one of the ranges. -/
def inRanges (ranges : Ranges) (i : Nat) : Bool :=
  ranges.any fun (first, last) => first ≤ i && last.all (i ≤ ·)

/-- The ranges that a list describes, or what is wrong with it. -/
def readRanges (fields : Bool) (text : String) : Except String Ranges :=
  ((Text.splitAll ',' text.toList).flatMap fun s => Text.splitAll ' ' s).mapM fun part =>
    let value := if fields then "field value " else "byte/character position "
    let invalid : Except String (Nat × Option Nat) :=
      .error ("invalid " ++ value ++ quoteAlways (String.ofList part))
    let zero : Except String (Nat × Option Nat) :=
      .error ((if fields then "fields" else "byte/character positions") ++
        " are numbered from 1")
    let (n, rest) := readDigits 10 0 part
    let hasStart := part.head?.any isDigit
    match rest with
    | [] => if !hasStart then zero else if n = 0 then zero else .ok (n, some n)
    | '-' :: rest =>
      let (m, after) := readDigits 10 0 rest
      if !after.isEmpty then invalid
      else if hasStart ∧ n = 0 then zero
      else if rest.isEmpty then
        if hasStart then .ok (n, none) else .error "invalid range with no endpoint: -"
      else if m < n then .error "invalid decreasing range"
      else .ok (if hasStart then n else 1, some m)
    | _ => invalid

/-- Write parts of lines. -/
def cut : Utility := fun name args => do
  let g ← given name cutSpec args
  let lists := g.options.filter fun p => p.1 = 'b' || p.1 = 'c' || p.1 = 'f'
  match lists with
  | [] => misuse name "you must specify a list of bytes, characters, or fields" 1
  | _ :: _ :: _ => misuse name "only one list may be specified" 1
  | [(letter, text)] => do
    let fields := letter = 'f'
    let delimiter ← match g.last? 'd' with
      | none => pure '\t'
      | some text =>
        match text.toList with
        | [c] => pure c
        | [] => pure '\x00'
        | _ => misuse name "the delimiter must be a single character" 1
    if g.has 'd' ∧ !fields then
      misuse name "an input delimiter may be specified only when operating on fields" 1
    else if g.has 's' ∧ !fields then
      misuse name "suppressing non-delimited lines makes sense\n\tonly when operating on fields" 1
    else
      match readRanges fields text with
      | .error message => misuse name message 1
      | .ok ranges => do
        let wanted (i : Nat) : Bool := inRanges ranges i != g.has 'C'
        let joint := (g.last? 'o').getD (if fields then String.singleton delimiter else "")
        let cutLine (line : String) : Option String :=
          if fields then
            if !line.toList.contains delimiter then if g.has 's' then none else some line
            else
              let parts := (Text.splitAll delimiter line.toList).zipIdx.filter fun (_, i) =>
                wanted (i + 1)
              some (joint.intercalate (parts.map fun p => String.ofList p.1))
          else
            some (String.ofList ((line.toList.zipIdx.filter fun (_, i) =>
              wanted (i + 1)).map Prod.fst))
        let mut status := 0
        for path in sources g do
          match ← readSource name path with
          | some text => put name (unlines ((linesOf text).1.filterMap cutLine))
          | none => status := 1
        closeInput name "-" ((sources g).contains "-") status

/-! ## Characters -/

/-- The characters that a set describes. A repetition without a count fills what is
missing; it stands at the place that is given. -/
def readSet : Nat → List Char → Except String (List Char × Option (Nat × Char))
  | 0, _ => .ok ([], none)
  | _ + 1, [] => .ok ([], none)
  | n + 1, '[' :: ':' :: rest =>
    let kind := String.ofList (rest.takeWhile (· ≠ ':'))
    match characterKinds.lookup kind, rest.drop kind.length with
    | some holds, ':' :: ']' :: rest => do
      let members := ((List.range 256).map Char.ofNat).filter holds
      let (more, fill) ← readSet n rest
      return (members ++ more, shift members.length fill)
    | none, ':' :: ']' :: _ => .error ("invalid character class " ++ quoteAlways kind)
    | _, _ => single n '[' (':' :: rest)
  | n + 1, '[' :: c :: '*' :: rest =>
    let digits := rest.takeWhile isDigit
    match rest.drop digits.length with
    | ']' :: rest => do
      let count := (readDigits (if digits.head? = some '0' then 8 else 10) 0 digits).1
      let (more, fill) ← readSet n rest
      if count = 0 then return (more, some (0, c))
      else return (List.replicate count c ++ more, shift count fill)
    | _ => single n '[' (c :: '*' :: rest)
  | n + 1, '\\' :: rest =>
    let (c, rest) := match rest with
      | d :: _ =>
        if (letterEscape? d).isSome ∨ isOctal d then readEscape rest else (d, rest.drop 1)
      | [] => ('\\', [])
    single n c rest
  | n + 1, c :: rest => single n c rest
where
  /-- Move a place behind some characters. -/
  shift (count : Nat) : Option (Nat × Char) → Option (Nat × Char)
    | some (at_, c) => some (at_ + count, c)
    | none => none
  /-- A character, or the range that starts with it. -/
  single (n : Nat) (c : Char) (rest : List Char) :
      Except String (List Char × Option (Nat × Char)) := do
    match rest with
    | '-' :: d :: rest => do
      let (d, rest) := if d = '\\' then readEscape rest else (d, rest)
      if d < c then
        .error ("range-endpoints of " ++ quoteAlways (String.ofList [c, '-', d]) ++
          " are in reverse collating sequence order")
      else
        let members := (List.range (d.toNat - c.toNat + 1)).map fun i => Char.ofNat (c.toNat + i)
        let (more, fill) ← readSet n rest
        return (members ++ more, shift members.length fill)
    | rest => do
      let (more, fill) ← readSet n rest
      return (c :: more, shift 1 fill)

/-- Drop characters of a set that repeat the one before them. -/
def squeeze (set : List Char) (before : Option Char) : List Char → List Char
  | [] => []
  | c :: rest =>
    if before = some c ∧ set.contains c then squeeze set before rest
    else c :: squeeze set (some c) rest

/-- The options of `tr`. -/
def trSpec : Spec where
  letters := [('c', .nothing), ('C', .nothing), ('d', .nothing), ('s', .nothing),
    ('t', .nothing)]
  words := [("complement", 'c', .nothing), ("delete", 'd', .nothing),
    ("squeeze-repeats", 's', .nothing), ("truncate-set1", 't', .nothing)]
  status := 1
  usage := ""

/-- Replace, drop or squeeze characters. -/
def tr : Utility := fun name args => do
  let g ← givenFirst name trSpec args
  let complement := g.has 'c' || g.has 'C'
  let deletes := g.has 'd'
  let squeezes := g.has 's'
  let needsTwo := deletes = squeezes
  let read (text : String) : Sh (List Char × Option (Nat × Char)) := do
    match readSet (text.length + 1) text.toList with
    | .ok set => return set
    | .error message => die name message 1
  match g.operands with
  | [] => misuse name "missing operand" 1
  | [only] =>
    if needsTwo then
      misuse name ("missing operand after " ++ quoteWord only ++ "\n" ++
        (if deletes then "Two strings must be given when both deleting and squeezing repeats."
          else "Two strings must be given when translating.")) 1
    else do
      let (set, _) ← read only
      work name g complement deletes squeezes set [] false
  | [first, second] =>
    if deletes ∧ !squeezes then
      misuse name ("extra operand " ++ quoteWord second ++
        "\nOnly one string may be given when deleting without squeezing repeats.") 1
    else do
      let (set, _) ← read first
      let set := if complement then all.filter fun c => !set.contains c else set
      let (target, fill) ← read second
      let target := match fill with
        | some (at_, c) =>
          target.take at_ ++ List.replicate (set.length - target.length) c ++ target.drop at_
        | none => target
      if target.isEmpty ∧ !deletes ∧ !g.has 't' then
        die name "when not truncating set1, string2 must be non-empty" 1
      else work name g false deletes squeezes set target true
  | _ :: _ :: extra :: _ => misuse name ("extra operand " ++ quoteWord extra) 1
where
  /-- All characters. -/
  all : List Char := (List.range 256).map Char.ofNat
  /-- Work on the standard input. -/
  work (name : String) (g : Given) (complement deletes squeezes : Bool) (set target : List Char)
      (two : Bool) : Sh Nat := do
    let set := if complement then all.filter fun c => !set.contains c else set
    let text ← match ← input with
      | .ok text => pure text.toList
      | .error e => die name ("read error: " ++ e) 1
    let out :=
      if deletes then
        let kept := text.filter fun c => !set.contains c
        if squeezes then squeeze target none kept else kept
      else if !two then squeeze set none text
      else
        let padded := match target.getLast? with
          | some c =>
            if g.has 't' then target
            else target ++ List.replicate (set.length - target.length) c
          | none => target
        let table := (set.zip padded).reverse
        let replaced := text.map fun c => (table.lookup c).getD c
        if squeezes then squeeze padded none replaced else replaced
    put name (String.ofList out)
    return 0

/-! ## Other ones -/

/-- Write lines with their characters in reverse order. -/
def rev : Utility := fun name args => do
  let g ← given name ⟨[], [], 1, ""⟩ args
  let mut status := 0
  for path in sources g do
    match ← readOperand path with
    | .ok text => do
      let (lines, ended) := linesOf text
      let reversed := lines.map fun line => String.ofList line.toList.reverse
      put name ("\n".intercalate reversed ++ (if ended && !lines.isEmpty then "\n" else ""))
    | .error e => do
      say name ("cannot open " ++ path ++ ": " ++ e)
      status := 1
  return status

/-- Write lines with numbers. -/
def nl : Utility := fun name args => do
  let g ← given name ⟨[('b', .argument), ('w', .argument), ('s', .argument), ('v', .argument)],
    [("body-numbering", 'b', .argument)], 1, ""⟩ args
  let mut status := 0
  let mut number := 1
  for path in sources g do
    match ← readSource name path with
    | some text =>
      for line in (linesOf text).1 do
        if line ≠ "" ∨ g.last? 'b' = some "a" then
          put name (lineNumber number ++ line ++ "\n")
          number := number + 1
        else put name "       \n"
    | none => status := 1
  closeInput name "-" ((sources g).contains "-") status

/-- Join lines of several sources. -/
def paste : Utility := fun name args => do
  let g ← given name ⟨[('d', .argument), ('s', .nothing), ('z', .nothing)],
    [("delimiters", 'd', .argument), ("serial", 's', .nothing)], 1, ""⟩ args
  let delimiters := (unescape 1000 ((g.last? 'd').getD "\t").toList).1
  let joint (i : Nat) : String :=
    match delimiters[i % max delimiters.length 1]? with
    | some c => String.singleton c
    | none => ""
  let join (parts : List String) : String :=
    String.join (parts.zipIdx.map fun (part, i) =>
      (if i = 0 then "" else joint (i - 1)) ++ part)
  let paths := sources g
  let mut texts : List (List String) := []
  for path in paths do
    if path = "-" ∧ (paths.filter (· = "-")).length > 1 then texts := texts ++ [["-"]]
    else
      match ← readSource name path with
      | some text => texts := texts ++ [(linesOf text).1]
      | none => quit (← closeInput name "-" (path = "-") 1)
  let shared ← if texts.contains ["-"] then do
      match ← input with
      | .ok text => pure (linesOf text).1
      | .error _ => pure []
    else pure []
  let count := (paths.filter (· = "-")).length
  let columns := (texts.zip paths).zipIdx.map fun ((lines, path), i) =>
    if path = "-" ∧ count > 1 then
      let before := ((paths.take i).filter (· = "-")).length
      (shared.zipIdx.filter fun p => p.2 % count = before).map Prod.fst
    else lines
  if g.has 's' then put name (unlines (columns.map join))
  else
    let height := (columns.map List.length).foldl max 0
    put name (unlines ((List.range height).map fun i =>
      join (columns.map fun lines => (lines[i]?).getD "")))
  return 0

/-! ## Sequences -/

/-- A decimal number: a whole number of units, and how many digits stand behind the point. -/
def readDecimal? (text : String) : Option (Int × Nat) :=
  let (negative, s) := match text.toList with
    | '-' :: rest => (true, rest)
    | '+' :: rest => (false, rest)
    | s => (false, s)
  let (n, rest) := readDigits 10 0 s
  let result := match rest with
    | [] => if s.isEmpty then none else some (n, 0)
    | '.' :: digits =>
      let (n, rest) := readDigits 10 n digits
      if rest.isEmpty ∧ s.length > 1 then some (n, digits.length) else none
    | _ => none
  result.map fun (n, places) => (if negative then -(n : Int) else n, places)

/-- A number of units with digits behind the point. -/
def writeDecimal (n : Int) (places : Nat) : String :=
  let digits := Nat.toDigits 10 n.natAbs
  let digits := List.replicate (places + 1 - digits.length) '0' ++ digits
  let whole := digits.take (digits.length - places)
  let behind := digits.drop (digits.length - places)
  (if n < 0 then "-" else "") ++ String.ofList whole ++
    (if places = 0 then "" else "." ++ String.ofList behind)

/-- Write numbers from a first to a last one. -/
def seq : Utility := fun name args => do
  let (numbers, others) := args.partition fun arg => (readDecimal? arg).isSome
  let attached := others.any fun arg => arg = "-s" || arg = "-f"
  let g ← given name ⟨[('f', .argument), ('s', .argument), ('w', .nothing)],
    [("format", 'f', .argument), ("separator", 's', .argument),
      ("equal-width", 'w', .nothing)], 1, ""⟩ (if attached then args else others)
  let operands := if attached then g.operands else numbers ++ g.operands
  match operands.find? fun text => (readDecimal? text).isNone with
  | some text => misuse name ("invalid floating point argument: " ++ quoteWord text) 1
  | none =>
    match operands.filterMap readDecimal? with
    | [] => misuse name "missing operand" 1
    | [last] => write name g (1, 0) (1, 0) last
    | [first, last] => write name g first (1, 0) last
    | [first, step, last] =>
      if step.1 = 0 then
        misuse name ("invalid Zero increment value: " ++ quoteAlways (operands[1]?.getD "")) 1
      else write name g first step last
    | _ => misuse name ("extra operand " ++ quoteWord (operands[3]?.getD "")) 1
where
  /-- Write the numbers of a sequence. -/
  write (name : String) (g : Given) (first step last : Int × Nat) : Sh Nat := do
    let places := max first.2 step.2
    let scale := max places last.2
    let up (x : Int × Nat) : Int := x.1 * Number.tenTo (scale - x.2)
    let a := up first
    let d := up step
    let b := up last
    let count := if 0 < d then (if b < a then 0 else ((b - a) / d).toNat + 1)
      else (if a < b then 0 else ((a - b) / -d).toNat + 1)
    let values := (List.range (min count 100000)).map fun (i : Nat) => a + d * (i : Int)
    let shown := values.map fun v => writeDecimal (v / Number.tenTo (scale - places)) places
    let width := (shown.map String.length).foldl max 0
    let pad (text : String) : String :=
      let zeros := String.ofList (List.replicate (width - text.length) '0')
      if text.startsWith "-" then "-" ++ zeros ++ String.ofList (text.toList.drop 1)
      else zeros ++ text
    let shown := match g.last? 'f' with
      | some format => shown.map fun text => (Coordination.Shell.format format [text]).output
      | none => if g.has 'w' then shown.map pad else shown
    let text := ((g.last? 's').getD "\n").intercalate shown
    put name (if shown.isEmpty then "" else text ++ "\n")
    return 0

/-! ## Comparing -/

/-- The first place at which texts differ, and the line it is on. -/
def firstDifference (at_ line : Nat) : List Char → List Char → Option (Nat × Nat)
  | a :: as, b :: bs =>
    if a = b then firstDifference (at_ + 1) (if a = '\n' then line + 1 else line) as bs
    else some (at_, line)
  | _, _ => none

/-- Compare two files. -/
def cmp : Utility := fun name args => do
  let g ← given name ⟨[('s', .nothing), ('l', .nothing), ('b', .nothing)],
    [("quiet", 's', .nothing), ("silent", 's', .nothing), ("verbose", 'l', .nothing)], 2, ""⟩ args
  match g.operands with
  | [] => misuse name ("missing operand after " ++ quoteAlways name ++ "\n" ++ name) 2
  | [one] => compareFiles name g one "-"
  | one :: two :: _ => compareFiles name g one two
where
  /-- Compare what is at two paths. -/
  compareFiles (name : String) (g : Given) (one two : String) : Sh Nat := do
    match ← readOperand one with
    | .error e => die name (one ++ ": " ++ e) 2
    | .ok a =>
      match ← readOperand two with
      | .error e => die name (two ++ ": " ++ e) 2
      | .ok b =>
        if a = b then return 0
        else if g.has 's' then return 1
        else
          match firstDifference 1 1 a.toList b.toList with
          | some (at_, line) => do
            put name (one ++ " " ++ two ++ " differ: char " ++ ofNat at_ ++ ", line " ++
              ofNat line ++ "\n")
            return 1
          | none => do
            let (short, text) := if a.length < b.length then (one, a) else (two, b)
            let lines := (text.toList.filter (· = '\n')).length
            let place := if text.endsWith "\n" then "line " ++ ofNat lines
              else "in line " ++ ofNat (lines + 1)
            say name ("EOF on " ++ short ++ (if text = "" then " which is empty"
              else " after byte " ++ ofNat text.length ++ ", " ++ place))
            return 1

end Utility

end Coordination.Shell
