import Coordination.Data.Basic
import Coordination.Text.Blank

/-!
# JSON

Reading and writing of JSON texts. A read object keeps its fields in ascending order of the
names, the last of several fields with one name; the compact form writes no blanks and
escapes only what JSON requires, so what is written reads back as the same value. Reading
follows the grammar exactly; nesting is not limited.
-/

namespace Coordination.Data.Json

/-! ## Writing -/

/-- One character of a JSON string. -/
def escape (c : Char) : List Char :=
  match c with
  | '"' => ['\\', '"']
  | '\\' => ['\\', '\\']
  | '\x08' => ['\\', 'b']
  | '\x0c' => ['\\', 'f']
  | '\n' => ['\\', 'n']
  | '\r' => ['\\', 'r']
  | '\t' => ['\\', 't']
  | c =>
    if c.toNat < 0x20 then
      ['\\', 'u', '0', '0', Nat.digitChar (c.toNat / 16), Nat.digitChar (c.toNat % 16)]
    else [c]

/-- A JSON string. -/
def writeText (s : String) : List Char := '"' :: s.toList.flatMap escape ++ ['"']

mutual

/-- The compact form of a value. What JSON has no form for is written as `null`, or as the
text of a moment. -/
def write : Data → List Char
  | .null => "null".toList
  | .nonFinite => "null".toList
  | .moment s => writeText s
  | .bool b => (if b then "true" else "false").toList
  | .number n => n.toText.toList
  | .text s => writeText s
  | .list items => '[' :: writeItems items ++ [']']
  | .table fields => '\x7b' :: writeFields fields ++ ['\x7d']

/-- The items of a list, with commas. -/
def writeItems : List Data → List Char
  | [] => []
  | [d] => write d
  | d :: rest => write d ++ ',' :: writeItems rest

/-- The fields of a table, with commas. -/
def writeFields : List (String × Data) → List Char
  | [] => []
  | [(name, d)] => writeText name ++ ':' :: write d
  | (name, d) :: rest => writeText name ++ ':' :: write d ++ ',' :: writeFields rest

end

/-! ## Reading -/

/-- JSON's four blanks. -/
def isSpace (c : Char) : Bool := c = ' ' || c = '\n' || c = '\r' || c = '\t'

def skipSpace (s : List Char) : List Char := s.dropWhile isSpace

/-- The value of a hexadecimal digit. -/
def hexValue? (c : Char) : Option Nat :=
  if '0' ≤ c ∧ c ≤ '9' then some (c.toNat - '0'.toNat)
  else if 'a' ≤ c ∧ c ≤ 'f' then some (c.toNat - 'a'.toNat + 10)
  else if 'A' ≤ c ∧ c ≤ 'F' then some (c.toNat - 'A'.toNat + 10)
  else none

/-- Four hexadecimal digits. -/
def readUnit : List Char → Option (Nat × List Char)
  | a :: b :: c :: d :: rest => do
    let a ← hexValue? a
    let b ← hexValue? b
    let c ← hexValue? c
    let d ← hexValue? d
    some (((a * 16 + b) * 16 + c) * 16 + d, rest)
  | _ => none

/-- A character written as one code unit, or as a high and a low surrogate. -/
def readCodePoint (s : List Char) : Option (Char × List Char) := do
  let (n, rest) ← readUnit s
  if 0xD800 ≤ n ∧ n < 0xDC00 then
    match rest with
    | '\\' :: 'u' :: rest =>
      let (low, rest) ← readUnit rest
      if 0xDC00 ≤ low ∧ low < 0xE000 then
        some (Char.ofNat (0x10000 + (n - 0xD800) * 1024 + (low - 0xDC00)), rest)
      else none
    | _ => none
  else if 0xDC00 ≤ n ∧ n < 0xE000 then none
  else some (Char.ofNat n, rest)

/-- An escape after its backslash. -/
def readEscape : List Char → Option (Char × List Char)
  | '"' :: rest => some ('"', rest)
  | '\\' :: rest => some ('\\', rest)
  | '/' :: rest => some ('/', rest)
  | 'b' :: rest => some ('\x08', rest)
  | 'f' :: rest => some ('\x0c', rest)
  | 'n' :: rest => some ('\n', rest)
  | 'r' :: rest => some ('\r', rest)
  | 't' :: rest => some ('\t', rest)
  | 'u' :: rest => readCodePoint rest
  | _ => none

/-- The characters up to the closing quote. Every step uses up a character, so the length
of the text bounds the steps. -/
def readChars : Nat → List Char → Option (List Char × List Char)
  | 0, _ => none
  | _ + 1, [] => none
  | _ + 1, '"' :: rest => some ([], rest)
  | steps + 1, '\\' :: rest => do
    let (c, rest) ← readEscape rest
    let (cs, rest) ← readChars steps rest
    some (c :: cs, rest)
  | steps + 1, c :: rest =>
    if c.toNat < 0x20 then none
    else do
      let (cs, rest) ← readChars steps rest
      some (c :: cs, rest)

/-- A string after its opening quote. -/
def readText (s : List Char) : Option (String × List Char) :=
  (readChars (s.length + 1) s).map fun (cs, rest) => (String.ofList cs, rest)

/-- The rest of a text that starts with `word`. -/
def readWord (word : String) (d : Data) (s : List Char) : Option (Data × List Char) :=
  if s.take word.length = word.toList then some (d, s.drop word.length) else none

mutual

/-- A value at the start of a text. Each call is made on a shorter text or turns to a part
of the value at hand, so twice the length of the text bounds the steps. -/
def readValue : Nat → List Char → Option (Data × List Char)
  | 0, _ => none
  | steps + 1, s =>
    match skipSpace s with
    | '\x7b' :: rest =>
      match skipSpace rest with
      | '\x7d' :: rest => some (.table [], rest)
      | rest => (readFields steps rest).map fun (fields, rest) =>
          (.table (sortFields fields), rest)
    | '[' :: rest =>
      match skipSpace rest with
      | ']' :: rest => some (.list [], rest)
      | rest => (readItems steps rest).map fun (items, rest) => (.list items, rest)
    | '"' :: rest => (readText rest).map fun (s, rest) => (.text s, rest)
    | 't' :: rest => readWord "rue" (.bool true) rest
    | 'f' :: rest => readWord "alse" (.bool false) rest
    | 'n' :: rest => readWord "ull" .null rest
    | rest => (Number.read rest).map fun (n, rest) => (.number n, rest)

/-- The items of a list up to its closing bracket. -/
def readItems : Nat → List Char → Option (List Data × List Char)
  | 0, _ => none
  | steps + 1, s => do
    let (d, rest) ← readValue steps s
    match skipSpace rest with
    | ',' :: rest =>
      let (ds, rest) ← readItems steps rest
      some (d :: ds, rest)
    | ']' :: rest => some ([d], rest)
    | _ => none

/-- The fields of an object up to its closing brace. -/
def readFields : Nat → List Char → Option (List (String × Data) × List Char)
  | 0, _ => none
  | steps + 1, s =>
    match skipSpace s with
    | '"' :: rest => do
      let (name, rest) ← readText rest
      match skipSpace rest with
      | ':' :: rest =>
        let (d, rest) ← readValue steps rest
        match skipSpace rest with
        | ',' :: rest =>
          let (fields, rest) ← readFields steps rest
          some ((name, d) :: fields, rest)
        | '\x7d' :: rest => some ([(name, d)], rest)
        | _ => none
      | _ => none
    | _ => none

end

end Json

/-- The value of a JSON text. -/
def ofJson? (s : String) : Option Data :=
  let cs := s.toList
  match Json.readValue (2 * cs.length + 2) cs with
  | some (d, rest) => if Json.skipSpace rest = [] then some d else none
  | none => none

/-- The compact JSON text of a value. -/
def toJson (d : Data) : String := String.ofList (Json.write d)

end Coordination.Data
