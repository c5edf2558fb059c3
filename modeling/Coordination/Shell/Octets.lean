import Coordination.Text.Utf8

/-!
# Texts of octets

The shell and the programs that it runs know bytes, not characters. They hold a text as one
character for each byte, so that the ASCII characters stand for themselves and all else is
carried along. Texts from outside are turned into this form and back.
-/

namespace Coordination.Shell

/-- The characters that stand for bytes. -/
def ofBytes (bytes : Bytes) : String :=
  String.ofList (bytes.map fun b => Char.ofNat b.toNat)

/-- The bytes that characters stand for. -/
def toBytes (s : String) : Bytes := s.toList.map fun c => UInt8.ofNat c.toNat

/-- A text from outside. -/
def ofText (s : String) : String := ofBytes (Text.Utf8.encode s)

/-- A text for outside, with a replacement character for what is no text. -/
def toText (s : String) : String := Text.Utf8.decodeLenient (toBytes s)

/-- A decimal digit. -/
def isDigit (c : Char) : Bool := '0' ≤ c && c ≤ '9'

/-- An octal digit. -/
def isOctal (c : Char) : Bool := '0' ≤ c && c ≤ '7'

/-- A letter or an underscore: what a name may start with. -/
def startsName (c : Char) : Bool :=
  ('a' ≤ c && c ≤ 'z') || ('A' ≤ c && c ≤ 'Z') || c = '_'

/-- What a name may hold. -/
def inName (c : Char) : Bool := startsName c || isDigit c

/-- Whether the text is a name of a variable. -/
def isName (s : String) : Bool :=
  match s.toList with
  | [] => false
  | c :: rest => startsName c && rest.all inName

/-- A blank of the language: what separates words on a line. -/
def isBlank (c : Char) : Bool := c = ' ' || c = '\t'

/-- A white-space character. -/
def isSpace (c : Char) : Bool :=
  c = ' ' || c = '\t' || c = '\n' || c = '\x0b' || c = '\x0c' || c = '\r'

/-- The value of a digit in a base of at most 36. -/
def digitValue? (base : Nat) (c : Char) : Option Nat :=
  let value :=
    if isDigit c then some (c.toNat - '0'.toNat)
    else if 'a' ≤ c && c ≤ 'z' then some (c.toNat - 'a'.toNat + 10)
    else if 'A' ≤ c && c ≤ 'Z' then some (c.toNat - 'A'.toNat + 10)
    else none
  value.filter (· < base)

/-- The number that the leading digits of a text make after `n`, and what follows them. -/
def readDigits (base n : Nat) : List Char → Nat × List Char
  | [] => (n, [])
  | c :: rest =>
    match digitValue? base c with
    | some d => readDigits base (n * base + d) rest
    | none => (n, c :: rest)

/-- The base that a letter behind a zero stands for. -/
def baseLetter? (c : Char) : Option Nat :=
  if c = 'x' ∨ c = 'X' then some 16 else if c = 'b' ∨ c = 'B' then some 2 else none

/-- A natural number in its notation: hexadecimal behind `0x`, binary behind `0b`, octal
behind a zero, and decimal otherwise. -/
def readNatural (s : List Char) : Nat × List Char :=
  match s with
  | '0' :: letter :: rest =>
    match baseLetter? letter with
    | some base =>
      if rest.head?.any fun c => (digitValue? base c).isSome then readDigits base 0 rest
      else (0, letter :: rest)
    | none => readDigits 8 0 s
  | s => readDigits 10 0 s

/-- The value of a text of decimal digits. -/
def decimal? (s : String) : Option Nat :=
  if s ≠ "" ∧ s.toList.all isDigit then some (readDigits 10 0 s.toList).1 else none

/-- The integer of 64 bits that a text spells in decimal digits, with blanks around it. -/
def decimalInteger? (s : String) : Option Int :=
  let s := s.toList.dropWhile isSpace
  let (negative, digits) := match s with
    | '-' :: rest => (true, rest)
    | '+' :: rest => (false, rest)
    | s => (false, s)
  let (n, rest) := readDigits 10 0 digits
  let n : Int := if negative then -(n : Int) else n
  if (digits.head?.map isDigit).getD false ∧ rest.all isSpace ∧ -9223372036854775808 ≤ n ∧
      n ≤ 9223372036854775807 then some n else none

/-- The text of an integer. -/
def ofInt (n : Int) : String :=
  match n with
  | .ofNat n => String.ofList (Nat.toDigits 10 n)
  | .negSucc n => String.ofList ('-' :: Nat.toDigits 10 (n + 1))

/-- The text of a natural number. -/
def ofNat (n : Nat) : String := ofInt n

end Coordination.Shell
