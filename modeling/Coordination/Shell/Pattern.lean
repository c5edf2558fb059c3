import Coordination.Shell.Octets
import Coordination.Text.Split

/-!
# Patterns

A pattern describes a whole text: a star stands for any text, a question mark for one
character, and brackets for one of the characters that they list. A quoted character stands
for itself. Brackets that are not closed are ordinary characters.
-/

namespace Coordination.Shell

/-- A character of a pattern, and whether it is quoted. -/
abbrev PatternChar := Char × Bool

/-- What stands between brackets. -/
inductive Member where
  | range (first last : Char)
  | kind (holds : Char → Bool)

namespace Member

/-- Whether a character is meant. -/
def holds (c : Char) : Member → Bool
  | .range first last => first ≤ c && c ≤ last
  | .kind holds => holds c

end Member

/-- A part of a pattern. -/
inductive PatternItem where
  | one (c : Char)
  | any
  | many
  | set (inverted : Bool) (members : List Member)

/-- A pattern. -/
abbrev Pattern := List PatternItem

/-- The kinds of characters by their names. -/
def characterKinds : List (String × (Char → Bool)) :=
  let lower (c : Char) : Bool := 'a' ≤ c && c ≤ 'z'
  let upper (c : Char) : Bool := 'A' ≤ c && c ≤ 'Z'
  let letter (c : Char) : Bool := lower c || upper c
  let visible (c : Char) : Bool := '!' ≤ c && c ≤ '~'
  [("alnum", fun c => letter c || isDigit c), ("alpha", letter), ("blank", isBlank),
    ("cntrl", fun c => c < ' ' || c = '\x7f'), ("digit", isDigit), ("graph", visible),
    ("lower", lower), ("print", fun c => c = ' ' || visible c),
    ("punct", fun c => visible c && !letter c && !isDigit c), ("space", isSpace),
    ("upper", upper), ("xdigit", fun c => (digitValue? 16 c).isSome)]

namespace Pattern

/-- The kind of characters that is named behind an opening bracket, and what follows. -/
def readKind (s : List PatternChar) : Option ((Char → Bool) × List PatternChar) :=
  characterKinds.findSome? fun (name, holds) =>
    (afterPlain (":" ++ name ++ ":]").toList s).map fun rest => (holds, rest)
where
  /-- What follows a text of which nothing is quoted. -/
  afterPlain : List Char → List PatternChar → Option (List PatternChar)
    | [], s => some s
    | c :: text, (d, false) :: s => if c = d then afterPlain text s else none
    | _, _ => none

/-- What stands between brackets up to the closing one, and what follows it. The first
character may be a closing bracket that stands for itself. -/
def readMembers (first : Bool) : Nat → List PatternChar →
    Option (List Member × List PatternChar)
  | 0, _ => none
  | _ + 1, [] => none
  | n + 1, (c, quoted) :: rest =>
    if c = ']' ∧ !quoted ∧ !first then some ([], rest)
    else
      match if c = '[' ∧ !quoted then readKind rest else none with
      | some (holds, rest) =>
        (readMembers false n rest).map fun (members, rest) => (.kind holds :: members, rest)
      | none =>
        match rest with
        | ('-', false) :: (d, dQuoted) :: after =>
          if d = ']' ∧ !dQuoted then
            (readMembers false n rest).map fun (members, rest) => (.range c c :: members, rest)
          else
            (readMembers false n after).map fun (members, rest) =>
              (.range c d :: members, rest)
        | _ =>
          (readMembers false n rest).map fun (members, rest) => (.range c c :: members, rest)

/-- Let a backslash quote the character behind it. -/
def quoteEscaped : List PatternChar → List PatternChar
  | ('\\', false) :: (c, _) :: rest => (c, true) :: quoteEscaped rest
  | ('\\', false) :: [] => [('\\', true)]
  | p :: rest => p :: quoteEscaped rest
  | [] => []

/-- The pattern of characters in which no backslash quotes. -/
def ofPlain : Nat → List PatternChar → Pattern
  | 0, _ => []
  | _ + 1, [] => []
  | n + 1, (c, true) :: rest => .one c :: ofPlain n rest
  | n + 1, ('*', false) :: rest => .many :: ofPlain n rest
  | n + 1, ('?', false) :: rest => .any :: ofPlain n rest
  | n + 1, ('[', false) :: rest =>
    let (inverted, inner) := match rest with
      | ('!', false) :: inner => (true, inner)
      | inner => (false, inner)
    match readMembers true (inner.length + 1) inner with
    | some (members, rest) => .set inverted members :: ofPlain n rest
    | none => .one '[' :: ofPlain n rest
  | n + 1, (c, false) :: rest => .one c :: ofPlain n rest

/-- The pattern of characters. -/
def ofChars (s : List PatternChar) : Pattern :=
  let s := quoteEscaped s
  ofPlain (s.length + 1) s

/-- The texts that a text ends with, from the longest to the shortest. -/
def tails : List Char → List (List Char)
  | [] => [[]]
  | c :: rest => (c :: rest) :: tails rest

/-- Whether the pattern describes the text. -/
def describes : Pattern → List Char → Bool
  | [], s => s.isEmpty
  | .one c :: p, d :: s => c = d && describes p s
  | .any :: p, _ :: s => describes p s
  | .set inverted members :: p, c :: s =>
    (members.any (Member.holds c) != inverted) && describes p s
  | .many :: p, s => (tails s).any (describes p)
  | _, [] => false

/-- Whether the pattern describes more than one text. -/
def isOpen (p : Pattern) : Bool :=
  p.any fun
    | .one _ => false
    | _ => true

end Pattern

end Coordination.Shell
