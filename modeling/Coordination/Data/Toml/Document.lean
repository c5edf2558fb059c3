import Coordination.Data.Toml.Scalar
import Coordination.Data.Toml.Table

/-!
# TOML documents

Values, keys, headers and lines. A document is read line by line into a draft of its
tables. Keys have fewer than eighty names, and values nest less than eighty deep.
-/

namespace Coordination.Data.Toml

/-- What names and levels of nesting must stay below. -/
def limit : Nat := 80

/-! ## Keys -/

/-- The characters of names without quotes. -/
def isNameChar (c : Char) : Bool := c.isAlphanum || c = '_' || c = '-'

/-- One name of a key. -/
def readName (s : List Char) : Option (String × List Char) :=
  match s with
  | '"' :: _ => (readLineText s).map fun (cs, rest) => (String.ofList cs, rest)
  | '\'' :: _ => (readLineText s).map fun (cs, rest) => (String.ofList cs, rest)
  | s =>
    let name := s.takeWhile isNameChar
    if name = [] then none else some (String.ofList name, s.drop name.length)

/-- The names of a key before the last one, the last one, and what follows the blanks after
it. Every name uses up a character. -/
def readNames : Nat → List Char → Option (List String × String × List Char)
  | 0, _ => none
  | steps + 1, s => do
    let (name, rest) ← readName (skipBlanks s)
    match skipBlanks rest with
    | '.' :: rest =>
      let (names, last, rest) ← readNames steps rest
      some (name :: names, last, rest)
    | rest => some ([], name, rest)

/-- A key. -/
def readKey (s : List Char) : Option (List String × String × List Char) :=
  (readNames (s.length + 1) s).filter fun (names, _, _) => names.length + 1 < limit

/-! ## Values -/

/-- Drop blanks, line ends and comments with their line ends. -/
def skipLines : Nat → List Char → List Char
  | 0, s => s
  | steps + 1, s =>
    match skipBlankLines s with
    | '#' :: rest =>
      match newline? (skipComment ('#' :: rest)) with
      | some rest => skipLines steps rest
      | none => '#' :: rest
    | s => s

/-- What follows a word at the start of a text. -/
def readWord (word : String) (d : Data) (s : List Char) : Option (Data × List Char) :=
  if word.toList.isPrefixOf s then some (d, s.drop word.length) else none

/-- A value that is neither a list nor a table. -/
def readScalar (s : List Char) : Option (Data × List Char) :=
  match s with
  | '"' :: _ => (readText s).map fun (cs, rest) => (.text (String.ofList cs), rest)
  | '\'' :: _ => (readText s).map fun (cs, rest) => (.text (String.ofList cs), rest)
  | 't' :: _ => readWord "true" (.bool true) s
  | 'f' :: _ => readWord "false" (.bool false) s
  | s => (readMoment s).or (readNumber s)

mutual

/-- A value at a depth of nesting. Each call is made on a shorter text or turns to a part of
the value at hand, so twice the length of the text bounds the steps. -/
def readValue : Nat → Nat → List Char → Option (Data × List Char)
  | 0, _, _ => none
  | steps + 1, depth, s =>
    match s with
    | '[' :: rest =>
      if depth + 1 < limit then
        (readItems steps (depth + 1) rest).map fun (items, rest) => (.list items, rest)
      else none
    | '\x7b' :: rest =>
      if depth + 1 < limit then
        match skipBlanks rest with
        | '\x7d' :: rest => some (.table [], rest)
        | _ => (readPairs steps (depth + 1) [] rest).map fun (items, rest) =>
            (.table (fieldsOf items), rest)
      else none
    | s => readScalar s

/-- The items of a list up to its closing bracket. A comma may stand before the bracket. -/
def readItems : Nat → Nat → List Char → Option (List Data × List Char)
  | 0, _, _ => none
  | steps + 1, depth, s =>
    match skipLines s.length s with
    | ']' :: rest => some ([], rest)
    | s => do
      let (d, rest) ← readValue steps depth s
      match skipLines rest.length rest with
      | ',' :: rest =>
        let (ds, rest) ← readItems steps depth rest
        some (d :: ds, rest)
      | ']' :: rest => some ([d], rest)
      | _ => none

/-- The pairs of an inline table up to its closing brace, added to those before them. -/
def readPairs : Nat → Nat → Items → List Char → Option (Items × List Char)
  | 0, _, _, _ => none
  | steps + 1, depth, items, s => do
    let (names, last, rest) ← readKey s
    match rest with
    | '=' :: rest =>
      let (d, rest) ← readValue steps depth (skipBlanks rest)
      let items ← items.addValue names last d
      match skipBlanks rest with
      | ',' :: rest => readPairs steps depth items rest
      | '\x7d' :: rest => some (items, rest)
      | _ => none
    | _ => none

end

/-! ## Lines -/

/-- A line with a header of a table or of an element of a list. -/
def readHeader (draft : Draft) (s : List Char) : Option (Draft × List Char) :=
  match s with
  | '[' :: '[' :: rest =>
    match readKey rest with
    | some (names, last, ']' :: ']' :: rest) => do
      let draft ← draft.openElement names last
      let rest ← lineEnd? rest
      some (draft, rest)
    | _ => none
  | '[' :: rest =>
    match readKey rest with
    | some (names, last, ']' :: rest) => do
      let draft ← draft.openTable names last
      let rest ← lineEnd? rest
      some (draft, rest)
    | _ => none
  | _ => none

/-- A line with a key and its value. -/
def readPair? (draft : Draft) (s : List Char) : Option (Draft × List Char) :=
  match readKey s with
  | some (names, last, '=' :: rest) => do
    let rest := skipBlanks rest
    let (d, rest) ← readValue (2 * rest.length + 2) 0 rest
    let draft ← draft.addValue names last d
    let rest ← lineEnd? rest
    some (draft, rest)
  | _ => none

/-- The lines of a document. Every line uses up a character. -/
def readLines : Nat → Draft → List Char → Option Data
  | 0, _, _ => none
  | steps + 1, draft, s =>
    match skipBlanks s with
    | [] => draft.finish
    | '[' :: rest => do
      let (draft, rest) ← readHeader draft ('[' :: rest)
      readLines steps draft rest
    | '#' :: rest => do
      let rest ← lineEnd? ('#' :: rest)
      readLines steps draft rest
    | c :: rest =>
      match newline? (c :: rest) with
      | some rest => readLines steps draft rest
      | none => do
        let (draft, rest) ← readPair? draft (c :: rest)
        readLines steps draft rest

/-- Drop a byte order mark. -/
def dropMark : List Char → List Char
  | '\ufeff' :: rest => rest
  | s => s

end Toml

/-- The table of a TOML text. -/
def ofToml? (s : String) : Option Data :=
  let cs := Toml.dropMark s.toList
  Toml.readLines (cs.length + 1) .start cs

end Coordination.Data
