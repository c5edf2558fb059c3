import Coordination.Shell.Pattern

/-!
# Fields

An expanded word is a list of atoms: characters that know whether they are quoted and
whether a field may end there, quotation marks, the gaps between arguments, and the edges of
what was expanded. The atoms are divided into fields at the separators of the shell. A
separator that is white space only divides; any other one ends a field, even an empty one,
and takes the white space around it along.
-/

namespace Coordination.Shell

/-- A part of an expanded word. -/
inductive Atom where
  /-- A character, and whether a separator of this value divides the word. -/
  | char (c : Char) (quoted divides : Bool)
  /-- A quotation mark. -/
  | mark
  /-- A gap between two arguments. -/
  | gap (quoted : Bool)
  /-- The end of an expanded value, and whether it was made of arguments in quotes. -/
  | edge (arguments : Bool)
  deriving DecidableEq, Repr, Inhabited

namespace Atom

/-- The atoms of a value. -/
def ofValue (value : String) (quoted : Bool) : List Atom :=
  value.toList.map fun c => .char c quoted (!quoted)

/-- The character of an atom. -/
def char? : Atom → Option Char
  | .char c _ _ => some c
  | _ => none

/-- The text of atoms. -/
def text (atoms : List Atom) : String := String.ofList (atoms.filterMap char?)

/-- The characters of a pattern that atoms make. -/
def patternChars (atoms : List Atom) : List PatternChar :=
  atoms.filterMap fun
    | .char c quoted _ => some (c, quoted)
    | _ => none

/-- Whether it is a character or a gap. -/
def isContent : Atom → Bool
  | .char .. => true
  | .gap _ => true
  | _ => false

/-- The characters up to the first gap. -/
def upToGap : List Atom → List Char
  | .char c _ _ :: rest => c :: upToGap rest
  | _ => []

/-- The atoms without the part at their start or end that a pattern describes, the shortest
or the longest one. A pattern sees no further than to a gap. -/
def trim (p : Pattern) (atEnd longest : Bool) (atoms : List Atom) : List Atom :=
  let start := upToGap atoms
  let cuts := if atEnd = longest then List.range (start.length + 1)
    else (List.range (atoms.length + 1)).reverse
  let described (n : Nat) : Bool :=
    Pattern.describes p (if atEnd then upToGap (atoms.drop n) else start.take n)
  match cuts.find? described with
  | some n => if atEnd then atoms.take n else atoms.drop n
  | none => atoms

end Atom

/-- The separators that are white space. -/
def isWhiteSeparator (c : Char) : Bool := c = ' ' || c = '\t' || c = '\n'

/-- The separators of fields as long as none are set. -/
def usualSeparators : List Char := [' ', '\t', '\n']

/-- What stands before an atom. -/
inductive Phase where
  /-- The text of a field, or nothing. -/
  | inField
  /-- A separator, and whether it was only white space. -/
  | behind (white : Bool)
  deriving DecidableEq

/-- Divide atoms into fields, given the field that is open, in reverse order, and whether
the last value was made of arguments. -/
def divide (separators : List Char) (phase : Phase) (field : List Atom) (arguments : Bool) :
    List Atom → List (List Atom)
  | [] => if field.isEmpty && !arguments then [] else [field.reverse]
  | .edge arguments :: rest => divide separators .inField field arguments rest
  | .gap true :: rest => field.reverse :: divide separators .inField [] arguments rest
  | .gap false :: rest =>
    if field.isEmpty && !arguments then divide separators phase [] arguments rest
    else field.reverse :: divide separators (.behind true) [] arguments rest
  | .char c quoted divides :: rest =>
    let open_ := .char c quoted divides :: field
    if divides && separators.contains c then
      let white := isWhiteSeparator c && !arguments
      match phase with
      | .inField =>
        if field.isEmpty && white then divide separators .inField [] arguments rest
        else field.reverse :: divide separators (.behind white) [] arguments rest
      | .behind onlyWhite =>
        if white then divide separators phase [] arguments rest
        else if onlyWhite then divide separators (.behind false) [] arguments rest
        else [] :: divide separators (.behind false) [] arguments rest
    else divide separators .inField open_ arguments rest
  | .mark :: rest => divide separators .inField (.mark :: field) arguments rest

/-- The fields of an expanded word. -/
def fieldsOf (separators : List Char) (atoms : List Atom) : List (List Atom) :=
  divide separators .inField [] false atoms

/-! ## Lines of input -/

/-- Drop separators that are white space. -/
def dropWhite (separators : List Char) (s : List (Char × Bool)) : List (Char × Bool) :=
  s.dropWhile fun (c, quoted) => !quoted && separators.contains c && isWhiteSeparator c

/-- The text up to a separator, and what stands behind the separator and the white space
around it. -/
def takeField (separators : List Char) : List (Char × Bool) →
    List Char × List (Char × Bool) × Bool
  | [] => ([], [], false)
  | (c, quoted) :: rest =>
    if !quoted && separators.contains c then
      if isWhiteSeparator c then
        match dropWhite separators rest with
        | (d, false) :: after =>
          if separators.contains d then ([], dropWhite separators after, true)
          else ([], (d, false) :: after, true)
        | after => ([], after, true)
      else ([], dropWhite separators rest, true)
    else
      let (field, after) := takeField separators rest
      (c :: field, after)

/-- The last of several fields: all that is left, without white space at its end. A
separator at its end is dropped as well if there is no other one. -/
def lastField (separators : List Char) (s : List (Char × Bool)) : List Char :=
  let isSeparator : Char × Bool → Bool := fun (c, quoted) => !quoted && separators.contains c
  let isWhite : Char × Bool → Bool := fun p => isSeparator p && isWhiteSeparator p.1
  let trimmed := (s.reverse.dropWhile isWhite).reverse
  let (field, rest, found) := takeField separators trimmed
  if found && rest.isEmpty then field else trimmed.map Prod.fst

/-- Divide a line into as many fields as there are names for them. The last one takes what
is left. -/
def divideLine (separators : List Char) : Nat → List (Char × Bool) → List (List Char)
  | 0, _ => []
  | 1, s => [lastField separators (dropWhite separators s)]
  | n + 2, s =>
    let (field, rest, _) := takeField separators (dropWhite separators s)
    field :: divideLine separators (n + 1) rest

end Coordination.Shell
