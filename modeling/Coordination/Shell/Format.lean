import Coordination.Number.Shortest
import Coordination.Shell.Octets
import Coordination.Text.Split

/-!
# Formats

Writing arguments with escapes and in formats. A format is used again as long as it uses up
arguments; arguments that are missing are empty texts and zeros. An argument that is no
number is reported, and what could be read of it is written.
-/

namespace Coordination.Shell

open Number

/-! ## Escapes -/

/-- The character of an escape of one letter. -/
def letterEscape? : Char → Option Char
  | 'a' => some '\x07'
  | 'b' => some '\x08'
  | 't' => some '\t'
  | 'n' => some '\n'
  | 'v' => some '\x0b'
  | 'f' => some '\x0c'
  | 'r' => some '\r'
  | 'e' => some '\x1b'
  | '\\' => some '\\'
  | _ => none

/-- The number that up to `count` octal digits make after `n`, and what follows them. -/
def readOctal (n : Nat) : Nat → List Char → Nat × List Char
  | 0, s => (n, s)
  | count + 1, c :: rest =>
    if isOctal c then readOctal (8 * n + (c.toNat - '0'.toNat)) count rest else (n, c :: rest)
  | _ + 1, [] => (n, [])

/-- The character of an escape behind its backslash, and what follows it. No escape is a
backslash. -/
def readEscape : List Char → Char × List Char
  | [] => ('\\', [])
  | c :: rest =>
    match letterEscape? c with
    | some d => (d, rest)
    | none =>
      if isOctal c then
        let (n, rest) := readOctal 0 3 (c :: rest)
        (Char.ofNat (n % 256), rest)
      else ('\\', c :: rest)

/-- A text with its escapes replaced, and whether it told to stop. The digits of an octal
escape may stand behind a zero. -/
def unescape : Nat → List Char → List Char × Bool
  | 0, _ => ([], false)
  | _ + 1, [] => ([], false)
  | _ + 1, '\\' :: 'c' :: _ => ([], true)
  | n + 1, '\\' :: rest =>
    let rest := match rest with
      | '0' :: c :: after => if isOctal c then c :: after else rest
      | rest => rest
    let (c, rest) := readEscape rest
    let (text, stopped) := unescape n rest
    (c :: text, stopped)
  | n + 1, c :: rest =>
    let (text, stopped) := unescape n rest
    (c :: text, stopped)

/-- The text that `echo` writes for its arguments. -/
def echoed (args : List String) : String :=
  let (newline, args) := match args with
    | "-n" :: rest => (false, rest)
    | args => (true, args)
  let text := (" ".intercalate args).toList
  let (out, stopped) := unescape (text.length + 1) text
  String.ofList (if newline && !stopped then out ++ ['\n'] else out)

/-! ## Numbers -/

/-- An integer at the start of a text. -/
structure IntegerRead where
  negative : Bool
  size : Nat
  rest : List Char

/-- The integer that a text starts with, in the notation of its base, if there is one. -/
def readInteger (s : List Char) : Option IntegerRead :=
  let (negative, s) := readSign (s.dropWhile isSpace)
  if s.head?.any isDigit then
    let (n, rest) := readNatural s
    some ⟨negative, n, rest⟩
  else none
where
  /-- A sign, and what follows it. -/
  readSign : List Char → Bool × List Char
    | '-' :: rest => (true, rest)
    | '+' :: rest => (false, rest)
    | s => (false, s)

/-- A number that is written with a point. -/
inductive Real where
  | finite (negative : Bool) (m : Magnitude)
  | infinite (negative : Bool)
  | nan (negative : Bool)
  deriving Inhabited

/-- The exponent behind a mark, and what follows it. Without digits there is none. -/
def readPower (mark : Char) (s : List Char) : Int × List Char :=
  match s with
  | c :: rest =>
    if c.toLower = mark then
      let (negative, digits) := readInteger.readSign rest
      match digits with
      | d :: _ =>
        if isDigit d then
          let (n, rest) := readDigits 10 0 digits
          let n := min n 100000
          (if negative then -(n : Int) else n, rest)
        else (0, s)
      | [] => (0, s)
    else (0, s)
  | [] => (0, s)

/-- Digits with a point among them: their number, how many stand behind the point, whether
there are any, and what follows them. -/
def readPointed (base : Nat) (s : List Char) : Nat × Nat × Bool × List Char :=
  let (n, rest) := readDigits base 0 s
  let before := s.length - rest.length
  match rest with
  | '.' :: after =>
    let (n, rest) := readDigits base n after
    let behind := after.length - rest.length
    if before + behind = 0 then (0, 0, false, s) else (n, behind, true, rest)
  | rest => (n, 0, before ≠ 0, rest)

/-- The number that a text starts with, what follows it, and whether it is out of range. -/
def readReal (s : List Char) : Option (Real × List Char × Bool) :=
  let (negative, s) := readInteger.readSign (s.dropWhile isSpace)
  let lower := s.map Char.toLower
  let finite (n : Nat) (d : Nat) (rest : List Char) : Real × List Char × Bool :=
    match Magnitude.ofRatio? n d with
    | some m => (.finite negative m, rest, n ≠ 0 && m.significand = 0)
    | none => (.infinite negative, rest, true)
  if (Text.afterStart "infinity".toList lower).isSome then
    some (.infinite negative, s.drop 8, false)
  else if (Text.afterStart "inf".toList lower).isSome then
    some (.infinite negative, s.drop 3, false)
  else if (Text.afterStart "nan".toList lower).isSome then
    some (.nan negative, s.drop 3, false)
  else
    let hexadecimal := match s with
      | '0' :: x :: rest =>
        if x = 'x' ∨ x = 'X' then
          let (n, behind, found, rest) := readPointed 16 rest
          if found then some (n, behind, rest) else none
        else none
      | _ => none
    match hexadecimal with
    | some (n, behind, rest) =>
      let (power, rest) := readPower 'p' rest
      let power := power - 4 * behind
      some (if 0 ≤ power then finite (n * twoTo power.toNat) 1 rest
        else finite n (twoTo (-power).toNat) rest)
    | none =>
      let (n, behind, found, rest) := readPointed 10 s
      if !found then none
      else
        let (power, rest) := readPower 'e' rest
        let power := power - behind
        let power := if power < -2000 - behind then -2000 - (behind : Int)
          else if 2000 < power then 2000 else power
        some (if 0 ≤ power then finite (n * tenTo power.toNat) 1 rest
          else finite n (tenTo (-power).toNat) rest)

/-! ## Directives -/

/-- How a value is laid out. -/
structure Directive where
  left : Bool
  plus : Bool
  space : Bool
  alternate : Bool
  zero : Bool
  width : Nat
  precision : Option Nat
  deriving Inhabited

namespace Directive

/-- Fill a field. Zeros stand behind the sign. -/
def fill (d : Directive) (zeros : Bool) (sign body : List Char) : List Char :=
  let missing := d.width - (sign.length + body.length)
  if d.left then sign ++ body ++ List.replicate missing ' '
  else if zeros then sign ++ List.replicate missing '0' ++ body
  else List.replicate missing ' ' ++ sign ++ body

/-- The sign of a number. -/
def sign (d : Directive) (negative : Bool) : List Char :=
  if negative then ['-'] else if d.plus then ['+'] else if d.space then [' '] else []

/-- A text, cut to the precision. -/
def layText (d : Directive) (s : List Char) : List Char :=
  d.fill false [] (match d.precision with
    | some n => s.take n
    | none => s)

/-- Digits with zeros in front, as many as the precision asks for. -/
def padDigits (d : Directive) (digits : List Char) : List Char :=
  match d.precision with
  | some 0 => if digits = ['0'] then [] else digits
  | some n => List.replicate (n - digits.length) '0' ++ digits
  | none => digits

/-- An integer with a sign. -/
def layInteger (d : Directive) (n : Int) : List Char :=
  d.fill (d.zero && d.precision.isNone) (d.sign (n < 0))
    (d.padDigits (Nat.toDigits 10 n.natAbs))

/-- A natural number in a base. -/
def layNatural (d : Directive) (base : Nat) (upper : Bool) (n : Nat) : List Char :=
  let digits := d.padDigits (Nat.toDigits base n)
  let digits :=
    if base = 8 ∧ d.alternate ∧ digits.head? ≠ some '0' then '0' :: digits else digits
  let mark := if base = 16 ∧ d.alternate ∧ n ≠ 0 then ['0', 'x'] else []
  let raise (s : List Char) : List Char := if upper then s.map Char.toUpper else s
  d.fill (d.zero && d.precision.isNone) (raise mark) (raise digits)

/-- Digits with a point before the last `count` of them. -/
def pointed (d : Directive) (count : Nat) (digits : List Char) : List Char :=
  let digits := List.replicate (count + 1 - digits.length) '0' ++ digits
  let whole := digits.take (digits.length - count)
  let behind := digits.drop (digits.length - count)
  if count = 0 ∧ !d.alternate then whole else whole ++ '.' :: behind

/-- The exponent of a number with its sign and at least two digits. -/
def power (mark : Char) (least : Nat) (n : Int) : List Char :=
  let digits := Nat.toDigits 10 n.natAbs
  mark :: (if n < 0 then '-' else '+') ::
    (List.replicate (least - digits.length) '0' ++ digits)

/-- A number with digits behind the point. -/
def fixed (d : Directive) (count : Nat) (m : Magnitude) : List Char :=
  let (a, b) := m.toRatio
  d.pointed count (Nat.toDigits 10 (roundQuotient (a * tenTo count) b))

/-- The digits of a number, `count` of them behind the first, and the power of the first. -/
def scientificDigits (count : Nat) (m : Magnitude) : List Char × Int :=
  let (a, b) := m.toRatio
  if a = 0 then (List.replicate (count + 1) '0', 0)
  else
    let first := leadingPower a b
    let shift := (count : Int) - first
    let q := if 0 ≤ shift then roundQuotient (a * tenTo shift.toNat) b
      else roundQuotient a (b * tenTo (-shift).toNat)
    if q = tenTo (count + 1) then (Nat.toDigits 10 (tenTo count), first + 1)
    else (Nat.toDigits 10 q, first)

/-- A number with one digit before the point and an exponent. -/
def scientific (d : Directive) (count : Nat) (m : Magnitude) : List Char :=
  let (digits, first) := scientificDigits count m
  d.pointed count digits ++ power 'e' 2 first

/-- Digits behind a point without the zeros at their end. -/
def withoutZeros (s : List Char) : List Char :=
  if s.contains '.' then
    match s.reverse.dropWhile (· = '0') with
    | '.' :: rest => rest.reverse
    | rest => rest.reverse
  else s

/-- A number in the shorter of the two forms. -/
def general (d : Directive) (count : Nat) (m : Magnitude) : List Char :=
  let count := max count 1
  let (digits, first) := scientificDigits (count - 1) m
  let trim (s : List Char) : List Char := if d.alternate then s else withoutZeros s
  if first < -4 ∨ (count : Int) ≤ first then
    trim (d.pointed (count - 1) digits) ++ power 'e' 2 first
  else trim (d.fixed ((count : Int) - 1 - first).toNat m)

/-- A number with hexadecimal digits and a power of two. -/
def hexadecimal (d : Directive) (m : Magnitude) : List Char :=
  let (first, behind, exponent) :=
    if m.significand = 0 then (0, 0, 0)
    else
      let shift := 52 - m.significand.log2
      let s := m.significand * twoTo shift
      (1, s - twoTo 52, m.exponent - shift + 52)
  let (first, digits) := match d.precision with
    | none =>
      let digits := Nat.toDigits 16 behind
      let digits := List.replicate (13 - digits.length) '0' ++ digits
      (first, (digits.reverse.dropWhile (· = '0')).reverse)
    | some count =>
      let q := roundQuotient ((first * twoTo 52 + behind) * twoTo (4 * count)) (twoTo 52)
      let digits := Nat.toDigits 16 (q % twoTo (4 * count))
      let digits := List.replicate (count - digits.length) '0' ++ digits
      (q / twoTo (4 * count), if count = 0 then [] else digits)
  let point := if digits.isEmpty && !d.alternate then [] else ['.']
  Nat.toDigits 16 first ++ point ++ digits ++ power 'p' 1 exponent

/-- A number in the form of a letter. -/
def layReal (d : Directive) (letter : Char) (x : Real) : List Char :=
  let raise (s : List Char) : List Char := if letter.isUpper then s.map Char.toUpper else s
  match x with
  | .infinite negative => d.fill false (d.sign negative) (raise "inf".toList)
  | .nan negative => d.fill false (d.sign negative) (raise "nan".toList)
  | .finite negative m =>
    let count := d.precision.getD 6
    let lower := letter.toLower
    let body :=
      if lower = 'f' then d.fixed count m
      else if lower = 'e' then d.scientific count m
      else if lower = 'g' then d.general count m
      else d.hexadecimal m
    let mark := if lower = 'a' then ['0', 'x'] else []
    d.fill d.zero (d.sign negative ++ raise mark) (raise body)

end Directive

/-! ## Formats -/

/-- What has been written in a format so far. -/
structure Formatting where
  arguments : List String
  /-- What was written, in reverse order. -/
  output : List Char
  /-- What was reported, in reverse order. -/
  warnings : List String

/-- Why a format is not read to its end. -/
inductive FormatEnd where
  | failed (message : String)
  /-- An escape told to stop. -/
  | stopped

namespace Formatting

/-- Steps of writing in a format. -/
abbrev Step := ExceptT FormatEnd (StateM Formatting)

/-- Write characters. -/
def put (s : List Char) : Step Unit :=
  modify fun f => { f with output := s.reverse ++ f.output }

/-- The next argument, if there is one. -/
def take? : Step (Option String) := do
  let f ← get
  match f.arguments with
  | [] => return none
  | a :: rest =>
    set { f with arguments := rest }
    return some a

/-- Report an argument. -/
def warn (argument what : String) : Step Unit :=
  modify fun f => { f with warnings := (argument ++ ": " ++ what) :: f.warnings }

/-- Report an argument that was not read to its end, or that is out of range. -/
def check (argument : String) (rest : Option (List Char)) (inRange : Bool) : Step Unit := do
  match rest with
  | none => if argument ≠ "" then warn argument "expected numeric value"
  | some rest =>
    if !rest.isEmpty then warn argument "not completely converted"
    else if !inRange then warn argument "Numerical result out of range"

/-- The code of the character behind a quotation mark. -/
def quotedCode? (argument : String) : Option Nat :=
  match argument.toList with
  | c :: rest =>
    if c = '\'' ∨ c = '"' then some ((rest.head?.map Char.toNat).getD 0) else none
  | [] => none

/-- The next argument as an integer with a sign. -/
def takeInteger : Step Int := do
  match ← take? with
  | none => return 0
  | some argument =>
    match quotedCode? argument, readInteger argument.toList with
    | some code, _ => return code
    | none, none => do check argument none true; return 0
    | none, some r => do
      let n : Int := if r.negative then -(r.size : Int) else r.size
      let inRange := -9223372036854775808 ≤ n ∧ n ≤ 9223372036854775807
      check argument (some r.rest) inRange
      return max (-9223372036854775808) (min n 9223372036854775807)

/-- The next argument as a natural number. A negative one is taken from the other end. -/
def takeNatural : Step Nat := do
  match ← take? with
  | none => return 0
  | some argument =>
    match quotedCode? argument, readInteger argument.toList with
    | some code, _ => return code
    | none, none => do check argument none true; return 0
    | none, some r => do
      let inRange := r.size ≤ 18446744073709551615
      check argument (some r.rest) inRange
      if !inRange then return 18446744073709551615
      else if r.negative ∧ r.size ≠ 0 then return 18446744073709551616 - r.size
      else return r.size

/-- The next argument as a number with a point. -/
def takeReal : Step Real := do
  match ← take? with
  | none => return .finite false Magnitude.zero
  | some argument =>
    match quotedCode? argument, readReal argument.toList with
    | some code, _ => return .finite false ((Magnitude.ofNat? code).getD Magnitude.zero)
    | none, none => do check argument none true; return .finite false Magnitude.zero
    | none, some (x, rest, outOfRange) => do
      check argument (some rest) !outOfRange
      return x

/-- A width or a precision, which has a limit: a star takes it from the arguments, as an
integer of 32 bits. -/
def takeSize (s : List Char) : Step (Int × List Char) := do
  let limit : Int := 1000000
  match s with
  | '*' :: rest => return (max (-limit) (min (Int.bmod (← takeInteger) 4294967296) limit), rest)
  | s =>
    let skipped := s.takeWhile fun c => isDigit c || c = '*'
    return (min (readDigits 10 0 s).1 limit, s.drop skipped.length)

/-- Write the value of a directive. -/
def layOut (d : Directive) (letter : Char) (source : List Char) : Step Unit := do
  match letter with
  | 'b' => do
    let text := ((← take?).getD "").toList
    let (out, stopped) := unescape (text.length + 1) text
    put (d.layText out)
    if stopped then throw .stopped
  | 'c' => do
    let c := (((← take?).getD "").toList.head?).getD '\x00'
    put (d.fill false [] [c])
  | 's' => put (d.layText ((← take?).getD "").toList)
  | 'd' => put (d.layInteger (← takeInteger))
  | 'i' => put (d.layInteger (← takeInteger))
  | 'o' => put (d.layNatural 8 false (← takeNatural))
  | 'u' => put (d.layNatural 10 false (← takeNatural))
  | 'x' => put (d.layNatural 16 false (← takeNatural))
  | 'X' => put (d.layNatural 16 true (← takeNatural))
  | letter =>
    if "aAeEfFgG".toList.contains letter then put (d.layReal letter (← takeReal))
    else throw (.failed (String.ofList source ++ ": invalid directive"))

/-- A directive behind its percent sign, and what follows it. -/
def readDirective (s : List Char) : Step (Directive × Char × List Char) := do
  let flags := s.takeWhile fun c => "#-+ 0".toList.contains c
  let (width, rest) ← takeSize (s.drop flags.length)
  let (precision, rest) ← match rest with
    | '.' :: rest => do
      let (n, rest) ← takeSize rest
      pure (if n < 0 then none else some n.toNat, rest)
    | rest => pure (none, rest)
  match rest with
  | [] => throw (.failed "missing format character")
  | letter :: rest =>
    let left := flags.contains '-' || width < 0
    let d : Directive :=
      ⟨left, flags.contains '+', flags.contains ' ', flags.contains '#', flags.contains '0',
        width.natAbs, precision⟩
    return (d, letter, rest)

/-- One pass over a format. -/
def pass : Nat → List Char → Step Unit
  | 0, _ => return ()
  | _ + 1, [] => return ()
  | n + 1, '\\' :: rest => do
    let (c, rest) := readEscape rest
    put [c]
    pass n rest
  | n + 1, '%' :: '%' :: rest => do
    put ['%']
    pass n rest
  | n + 1, '%' :: rest => do
    let (d, letter, after) ← readDirective rest
    layOut d letter ('%' :: rest.take (rest.length - after.length))
    pass n after
  | n + 1, c :: rest => do
    put [c]
    pass n rest

/-- Use a format again while it uses up arguments. -/
def passes (format : List Char) : Nat → Step Unit
  | 0 => return ()
  | n + 1 => do
    let before := (← get).arguments.length
    pass (format.length + 1) format
    let left := (← get).arguments.length
    if left ≠ 0 ∧ left ≠ before then passes format n

end Formatting

/-- What writing in a format gives. -/
structure Formatted where
  output : String
  warnings : List String
  /-- Why the format was given up. -/
  failure : Option String

/-- Write arguments in a format. -/
def format (format : String) (args : List String) : Formatted :=
  let steps := Formatting.passes format.toList (args.length + 1)
  let (result, f) := steps.run ⟨args, [], []⟩
  let failure := match result with
    | .error (.failed message) => some message
    | _ => none
  ⟨String.ofList f.output.reverse, f.warnings.reverse, failure⟩

end Coordination.Shell
