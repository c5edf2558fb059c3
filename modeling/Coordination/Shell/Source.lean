import Coordination.OrderedMap
import Coordination.Shell.Script

/-!
# Sources

A script is read from a source: the characters to come, the line they are on, and what the
reader has put off. A backslash before a line end joins two lines and is no character at
all, except where characters are read one by one. The text of an alias is put in front of
what is still to come, and the alias is not used again before that text has been read.
-/

namespace Coordination.Shell

/-- Why a script cannot be read, and on which line that was found. -/
structure SyntaxError where
  line : Nat
  message : String
  deriving DecidableEq, Repr, Inhabited

/-- What a redirection does, before its word is read. -/
inductive Arrow where
  | file (access : Access)
  | same
  /-- A document follows, whose lines may have tabs in front. -/
  | document (indented : Bool)
  deriving DecidableEq, Repr, Inhabited

/-- A token. Operators and reserved words are symbols. -/
inductive Token where
  | ended
  | newline
  | redirection (fd : Nat) (arrow : Arrow)
  | word (w : Word)
  | symbol (s : String)

instance : Inhabited Token := ⟨.ended⟩

namespace Token

/-- How a token is named where it is not expected. -/
def label : Token → String
  | .ended => "end of file"
  | .newline => "newline"
  | .redirection .. => "redirection"
  | .word _ => "word"
  | .symbol s => "\"" ++ s ++ "\""

/-- Whether the token is the symbol. -/
def isSymbol (t : Token) (s : String) : Bool :=
  match t with
  | .symbol s' => s' = s
  | _ => false

end Token

/-- A document whose text is still to come. -/
structure Awaited where
  number : Nat
  /-- The line that ends the document. -/
  ending : List Char
  /-- Whether the text is taken as it is. -/
  verbatim : Bool
  indented : Bool

/-- An alias whose text is being read. -/
structure Substituted where
  name : String
  /-- The number of characters behind the text of the alias. -/
  behind : Nat
  /-- Whether the word behind the text may be an alias again. -/
  goesOn : Bool

/-- What a script is read from. -/
structure Source where
  rest : List Char
  line : Nat
  /-- A token that was read and put back. -/
  pushed : Option Token
  aliases : OrderedMap String
  substituted : List Substituted
  awaited : List Awaited
  documents : Documents
  /-- The number of the next document. -/
  next : Nat

/-- Reading from a source. -/
abbrev Reading := StateT Source (Except SyntaxError)

namespace Source

/-- The source of a text. -/
def ofText (text : List Char) (aliases : OrderedMap String) (next : Nat) : Source where
  rest := text
  line := 1
  pushed := none
  aliases
  substituted := []
  awaited := []
  documents := []
  next

/-- Read over line ends behind backslashes. -/
def joinLines (s : Source) : Source :=
  match go s.rest with
  | (count, rest) => { s with rest, line := s.line + count }
where
  /-- The number of joins at the start of a text, and what follows them. -/
  go : List Char → Nat × List Char
    | '\\' :: '\n' :: rest => let (count, rest) := go rest; (count + 1, rest)
    | rest => (0, rest)

/-- Whether the text of an alias has been read. -/
def hasRead (s : Source) (a : Substituted) : Bool := s.rest.length ≤ a.behind

/-- Forget the aliases whose texts have been read. -/
def forgetAliases (s : Source) : Source :=
  { s with substituted := s.substituted.filter fun a => !s.hasRead a }

/-- Whether a word that was just read may be an alias because of the blank before it. -/
def goesOn (s : Source) : Bool := s.substituted.any fun a => a.goesOn && s.hasRead a

/-- Whether a word that was just read is a part of the text of an alias with its name. -/
def isSubstituting (s : Source) (name : String) : Bool :=
  s.substituted.any fun a => a.name = name && !(a.goesOn && s.hasRead a)

end Source

namespace Reading

/-- Fail with an error on the current line. -/
def fail {α : Type} (message : String) : Reading α := do
  throw ⟨(← get).line, "Syntax error: " ++ message⟩

/-- Fail at a token that is not expected. -/
def unexpected {α : Type} (t : Token) : Reading α := fail (t.label ++ " unexpected")

/-- Fail at a token in place of the one that is expected. -/
def expecting {α : Type} (t wanted : Token) : Reading α :=
  fail (t.label ++ " unexpected (expecting " ++ wanted.label ++ ")")

/-- The next character, which stays in the source. -/
def peek : Reading (Option Char) := do
  modify Source.joinLines
  return (← get).rest.head?

/-- Drop the next character. -/
def skip : Reading Unit :=
  modify fun s =>
    match s.rest with
    | '\n' :: rest => { s with rest, line := s.line + 1 }
    | _ :: rest => { s with rest }
    | [] => s

/-- Drop the next character if it is the given one, and say whether it was. -/
def accept (c : Char) : Reading Bool := do
  if (← peek) = some c then do skip; return true
  else return false

/-- Put a token back. -/
def push (t : Token) : Reading Unit := modify fun s => { s with pushed := some t }

/-- The line that the source is on. -/
def line : Reading Nat := do return (← get).line

/-- The longest run of characters of a kind. -/
def takeRun (kind : Char → Bool) : Nat → Reading (List Char)
  | 0 => return []
  | n + 1 => do
    match ← peek with
    | some c =>
      if kind c then do
        skip
        return c :: (← takeRun kind n)
      else return []
    | none => return []

/-- Put the text of an alias in front of what is to come. -/
def substitute (name text : String) : Reading Unit :=
  modify fun s => { s with
    rest := text.toList ++ s.rest
    substituted := ⟨name, s.rest.length, text.toList.getLast?.any isBlank⟩ :: s.substituted }

/-- Read another text, and then go on where this one was left. -/
def within {α : Type} (text : List Char) (read : Reading α) : Reading α := do
  let outer ← get
  set { outer with
    rest := text, line := 1, pushed := none, substituted := [], awaited := [] }
  let result ← read
  modify fun inner => { outer with documents := inner.documents, next := inner.next }
  return result

end Reading

end Coordination.Shell
