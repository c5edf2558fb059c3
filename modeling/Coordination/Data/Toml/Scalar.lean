import Coordination.Data.Basic

/-!
# TOML scalars

Strings, numbers, dates and times of TOML, read from the start of a text. A reader answers
the value and what follows it. Numbers may have single underscores between digits, integers
have 64 bits, and a date must exist in the calendar.
-/

namespace Coordination.Data.Toml

/-! ## Blanks, comments and line ends -/

/-- The blanks within a line. -/
def isBlank (c : Char) : Bool := c = ' ' || c = '\t'

def skipBlanks (s : List Char) : List Char := s.dropWhile isBlank

/-- The characters of comments, and with some exceptions of strings: no controls but the
tab. -/
def isPlain (c : Char) : Bool := c = '\t' || (0x20 ≤ c.toNat && c.toNat ≠ 0x7F)

/-- What follows a line end. -/
def newline? : List Char → Option (List Char)
  | '\n' :: rest => some rest
  | '\r' :: '\n' :: rest => some rest
  | _ => none

/-- Drop blanks and line ends. -/
def skipBlankLines : List Char → List Char
  | ' ' :: rest => skipBlankLines rest
  | '\t' :: rest => skipBlankLines rest
  | '\n' :: rest => skipBlankLines rest
  | '\r' :: '\n' :: rest => skipBlankLines rest
  | s => s

/-- Drop a comment, if the text starts with one. -/
def skipComment : List Char → List Char
  | '#' :: rest => rest.dropWhile isPlain
  | s => s

/-- What follows the end of a line, which may have blanks and a comment before it. -/
def lineEnd? (s : List Char) : Option (List Char) :=
  match skipComment (skipBlanks s) with
  | [] => some []
  | s => newline? s

/-! ## Strings -/

/-- The value of a hexadecimal digit. -/
def hexDigit? (c : Char) : Option Nat :=
  if '0' ≤ c ∧ c ≤ '9' then some (c.toNat - '0'.toNat)
  else if 'a' ≤ c ∧ c ≤ 'f' then some (c.toNat - 'a'.toNat + 10)
  else if 'A' ≤ c ∧ c ≤ 'F' then some (c.toNat - 'A'.toNat + 10)
  else none

/-- The character of a code point in `width` hexadecimal digits, continuing from `n`. -/
def readCodePoint (n : Nat) : Nat → List Char → Option (Char × List Char)
  | 0, rest => if n.isValidChar then some (Char.ofNat n, rest) else none
  | width + 1, c :: rest => (hexDigit? c).bind fun d => readCodePoint (16 * n + d) width rest
  | _ + 1, [] => none

/-- An escape after its backslash. -/
def readEscape : List Char → Option (Char × List Char)
  | 'b' :: rest => some ('\x08', rest)
  | 'f' :: rest => some ('\x0c', rest)
  | 'n' :: rest => some ('\n', rest)
  | 'r' :: rest => some ('\r', rest)
  | 't' :: rest => some ('\t', rest)
  | '"' :: rest => some ('"', rest)
  | '\\' :: rest => some ('\\', rest)
  | 'u' :: rest => readCodePoint 0 4 rest
  | 'U' :: rest => readCodePoint 0 8 rest
  | _ => none

/-- The characters of a string with escapes, up to its closing quote. -/
def readBasic : Nat → List Char → Option (List Char × List Char)
  | 0, _ => none
  | _ + 1, [] => none
  | _ + 1, '"' :: rest => some ([], rest)
  | steps + 1, '\\' :: rest => do
    let (c, rest) ← readEscape rest
    let (cs, rest) ← readBasic steps rest
    some (c :: cs, rest)
  | steps + 1, c :: rest =>
    if isPlain c then (readBasic steps rest).map fun (cs, rest) => (c :: cs, rest) else none

/-- The characters of a string without escapes, up to its closing quote. -/
def readLiteral : List Char → Option (List Char × List Char)
  | [] => none
  | '\'' :: rest => some ([], rest)
  | c :: rest =>
    if isPlain c then (readLiteral rest).map fun (cs, rest) => (c :: cs, rest) else none

/-- The number of times a text repeats `c` at its start. -/
def runLength (c : Char) (s : List Char) : Nat := (s.takeWhile (· = c)).length

/-- The rest of a string of several lines from a run of quotes on: three quotes close it, and
up to two more before them belong to it. -/
def closing? (quote : Char) (s : List Char) : Option (List Char × List Char) :=
  let n := runLength quote s
  if n < 3 then none
  else
    let extra := min (n - 3) 2
    some (List.replicate extra quote, s.drop (extra + 3))

/-- The characters of a string of several lines. A backslash at the end of a line drops it
together with the blanks and line ends that follow. -/
def readBasicLines : Nat → List Char → Option (List Char × List Char)
  | 0, _ => none
  | _ + 1, [] => none
  | steps + 1, '"' :: rest =>
    match closing? '"' ('"' :: rest) with
    | some closed => some closed
    | none => (readBasicLines steps rest).map fun (cs, rest) => ('"' :: cs, rest)
  | steps + 1, '\\' :: rest =>
    match newline? (skipBlanks rest) with
    | some rest => readBasicLines steps (skipBlankLines rest)
    | none => do
      let (c, rest) ← readEscape rest
      let (cs, rest) ← readBasicLines steps rest
      some (c :: cs, rest)
  | steps + 1, c :: rest =>
    match newline? (c :: rest) with
    | some rest => (readBasicLines steps rest).map fun (cs, rest) => ('\n' :: cs, rest)
    | none =>
      if isPlain c then (readBasicLines steps rest).map fun (cs, rest) => (c :: cs, rest)
      else none

/-- The characters of a string of several lines without escapes. -/
def readLiteralLines : Nat → List Char → Option (List Char × List Char)
  | 0, _ => none
  | _ + 1, [] => none
  | steps + 1, '\'' :: rest =>
    match closing? '\'' ('\'' :: rest) with
    | some closed => some closed
    | none => (readLiteralLines steps rest).map fun (cs, rest) => ('\'' :: cs, rest)
  | steps + 1, c :: rest =>
    match newline? (c :: rest) with
    | some rest => (readLiteralLines steps rest).map fun (cs, rest) => ('\n' :: cs, rest)
    | none =>
      if isPlain c then (readLiteralLines steps rest).map fun (cs, rest) => (c :: cs, rest)
      else none

/-- A line end at the start of a string of several lines is no part of it. -/
def dropFirstNewline (s : List Char) : List Char := (newline? s).getD s

/-- A string of one line. -/
def readLineText : List Char → Option (List Char × List Char)
  | '"' :: rest => readBasic (rest.length + 1) rest
  | '\'' :: rest => readLiteral rest
  | _ => none

/-- A string. -/
def readText : List Char → Option (List Char × List Char)
  | '"' :: '"' :: '"' :: rest => readBasicLines (rest.length + 1) (dropFirstNewline rest)
  | '\'' :: '\'' :: '\'' :: rest => readLiteralLines (rest.length + 1) (dropFirstNewline rest)
  | s => readLineText s

/-! ## Numbers -/

/-- The value of a digit of a base. -/
def digit? (base : Nat) (c : Char) : Option Nat := (hexDigit? c).filter (· < base)

/-- Digits with single underscores between them, after a first digit. -/
def moreDigits (base : Nat) : List Char → List Nat × List Char
  | '_' :: c :: rest =>
    match digit? base c with
    | some d => let (ds, after) := moreDigits base rest; (d :: ds, after)
    | none => ([], '_' :: c :: rest)
  | c :: rest =>
    match digit? base c with
    | some d => let (ds, after) := moreDigits base rest; (d :: ds, after)
    | none => ([], c :: rest)
  | [] => ([], [])

/-- Digits with single underscores between them. -/
def readDigits (base : Nat) : List Char → Option (List Nat × List Char)
  | c :: rest =>
    (digit? base c).map fun d => let (ds, after) := moreDigits base rest; (d :: ds, after)
  | [] => none

/-- The number of digits in a base. -/
def ofDigits (base : Nat) (ds : List Nat) : Nat := ds.foldl (fun n d => base * n + d) 0

/-- The digits before a point: no superfluous zeros. -/
def readWhole (s : List Char) : Option (List Nat × List Char) :=
  match s with
  | '0' :: rest => some ([0], rest)
  | s => readDigits 10 s

/-- An exponent, if there is one. -/
def readExponent (s : List Char) : Option (Int × List Char) :=
  match s with
  | c :: rest =>
    if c = 'e' ∨ c = 'E' then
      let (negative, rest) := match rest with
        | '-' :: rest => (true, rest)
        | '+' :: rest => (false, rest)
        | rest => (false, rest)
      (readDigits 10 rest).map fun (ds, rest) =>
        let n : Int := ofDigits 10 ds
        (if negative then -n else n, rest)
    else some (0, c :: rest)
  | [] => some (0, [])

/-- The number nearest to `n * 10 ^ power`. Powers that leave the range of the format by far
are not computed. -/
def nearest? (n : Nat) (power : Int) : Option Number.Magnitude :=
  let size := (toString n).length
  if n = 0 then some .zero
  else if 400 < size + power then none
  else if size + power < -400 then some .zero
  else if 0 ≤ power then Number.Magnitude.ofNat? (n * Number.tenTo power.toNat)
  else Number.Magnitude.ofRatio? n (Number.tenTo (-power).toNat)

/-- The value of a number with a fraction or an exponent. Only a negative one may be out of
range. -/
def ofDecimal? (negative : Bool) (n : Nat) (power : Int) : Option Data :=
  match nearest? n power with
  | some m => some (.number (.double ⟨negative, m⟩))
  | none => if negative then some .nonFinite else none

/-- An integer of 64 bits. -/
def ofInteger? (negative : Bool) (n : Nat) : Option Data :=
  if negative then if n ≤ Number.twoTo 63 then some (.int (-n)) else none
  else if n < Number.twoTo 63 then some (.nat n) else none

/-- A decimal number after its sign. -/
def readDecimal (negative : Bool) (s : List Char) : Option (Data × List Char) := do
  let (whole, rest) ← readWhole s
  match rest with
  | '.' :: rest =>
    let (fraction, rest) ← readDigits 10 rest
    let (power, rest) ← readExponent rest
    let d ← ofDecimal? negative (ofDigits 10 (whole ++ fraction)) (power - fraction.length)
    some (d, rest)
  | c :: _ =>
    if c = 'e' ∨ c = 'E' then
      let (power, rest) ← readExponent rest
      let d ← ofDecimal? negative (ofDigits 10 whole) power
      some (d, rest)
    else (ofInteger? negative (ofDigits 10 whole)).map (·, rest)
  | [] => (ofInteger? negative (ofDigits 10 whole)).map (·, [])

/-- A number that is written as a word. -/
def readNonFinite : List Char → Option (Data × List Char)
  | 'i' :: 'n' :: 'f' :: rest => some (.nonFinite, rest)
  | 'n' :: 'a' :: 'n' :: rest => some (.nonFinite, rest)
  | _ => none

/-- An integer in a base other than ten. -/
def readBased (base : Nat) (s : List Char) : Option (Data × List Char) := do
  let (ds, rest) ← readDigits base s
  let d ← ofInteger? false (ofDigits base ds)
  some (d, rest)

/-- A number after its sign. -/
def readSigned (negative : Bool) (s : List Char) : Option (Data × List Char) :=
  (readNonFinite s).or (readDecimal negative s)

/-- A number. -/
def readNumber : List Char → Option (Data × List Char)
  | '+' :: rest => readSigned false rest
  | '-' :: rest => readSigned true rest
  | '0' :: 'x' :: rest => readBased 16 rest
  | '0' :: 'o' :: rest => readBased 8 rest
  | '0' :: 'b' :: rest => readBased 2 rest
  | s => readSigned false s

/-! ## Dates and times -/

/-- A number of exactly `width` digits, continuing from `n`. -/
def readFixed (n : Nat) : Nat → List Char → Option (Nat × List Char)
  | 0, rest => some (n, rest)
  | width + 1, c :: rest => (digit? 10 c).bind fun d => readFixed (10 * n + d) width rest
  | _ + 1, [] => none

/-- A number of two digits between two bounds. -/
def readPair (low high : Nat) (s : List Char) : Option (Nat × List Char) :=
  (readFixed 0 2 s).filter fun p => low ≤ p.1 && p.1 ≤ high

/-- What follows a character. -/
def expect (c : Char) : List Char → Option (List Char)
  | x :: rest => if x = c then some rest else none
  | [] => none

/-- The number of days of a month. -/
def daysIn (year month : Nat) : Nat :=
  if month = 2 then
    if year % 4 = 0 ∧ (year % 100 ≠ 0 ∨ year % 400 = 0) then 29 else 28
  else if month = 4 ∨ month = 6 ∨ month = 9 ∨ month = 11 then 30
  else 31

/-- A number with leading zeros up to a width. -/
def padded (width n : Nat) : String :=
  let s := toString n
  String.ofList (List.replicate (width - s.length) '0') ++ s

/-- A date, as its text. -/
def readDate (s : List Char) : Option (String × List Char) := do
  let (year, s) ← readFixed 0 4 s
  let s ← expect '-' s
  let (month, s) ← readPair 1 12 s
  let s ← expect '-' s
  let (day, s) ← readPair 1 (daysIn year month) s
  some (s!"{padded 4 year}-{padded 2 month}-{padded 2 day}", s)

/-- A fraction of a second, if there is one, as its text. Nine digits count, and zeros at
the end are not written. -/
def readFraction : List Char → Option (String × List Char)
  | '.' :: s =>
    let digits := s.takeWhile fun c => (digit? 10 c).isSome
    if digits = [] then none
    else
      let kept := ((digits.take 9).reverse.dropWhile (· = '0')).reverse
      some (if kept = [] then "" else String.ofList ('.' :: kept), s.drop digits.length)
  | s => some ("", s)

/-- A time of day, as its text. -/
def readTime (s : List Char) : Option (String × List Char) := do
  let (hour, s) ← readPair 0 23 s
  let s ← expect ':' s
  let (minute, s) ← readPair 0 59 s
  let s ← expect ':' s
  let (second, s) ← readPair 0 60 s
  let (fraction, s) ← readFraction s
  some (s!"{padded 2 hour}:{padded 2 minute}:{padded 2 second}{fraction}", s)

/-- An offset from universal time, if there is one, as its text. -/
def readOffset (s : List Char) : Option (String × List Char) :=
  match s with
  | c :: rest =>
    if c = 'Z' ∨ c = 'z' then some ("Z", rest)
    else if c = '+' ∨ c = '-' then do
      let (hour, rest) ← readPair 0 23 rest
      let rest ← expect ':' rest
      let (minute, rest) ← readPair 0 59 rest
      let sign := if c = '-' ∧ (hour, minute) ≠ (0, 0) then "-" else "+"
      some (s!"{sign}{padded 2 hour}:{padded 2 minute}", rest)
    else some ("", s)
  | [] => some ("", [])

/-- A time of day after a date, if there is one. A blank that no time follows is not read. -/
def readTimeOfDate (s : List Char) : Option (String × List Char) :=
  match s with
  | c :: rest =>
    if c = 'T' ∨ c = 't' ∨ c = ' ' then
      match readTime rest with
      | some (time, rest) =>
        (readOffset rest).map fun (offset, rest) => ("T" ++ time ++ offset, rest)
      | none => some ("", s)
    else some ("", s)
  | [] => some ("", [])

/-- A date, a time, or both. -/
def readMoment (s : List Char) : Option (Data × List Char) :=
  match readDate s with
  | some (date, rest) =>
    (readTimeOfDate rest).map fun (time, rest) => (.moment (date ++ time), rest)
  | none => (readTime s).map fun (time, rest) => (.moment time, rest)

end Coordination.Data.Toml
