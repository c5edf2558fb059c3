import Coordination.Shell.Arithmetic
import Coordination.Shell.Glob
import Coordination.Shell.Process

/-!
# Parameters

What the expansion of a word needs and that runs no commands: the values of parameters, the
home directories that a tilde stands for, and the fields of an expanded word.
-/

namespace Coordination.Shell

/-- Where a tilde stands for a home directory. -/
inductive Tilde where
  | nowhere
  /-- At the start of the word. -/
  | start
  /-- Behind colons as well. -/
  | assignment
  deriving DecidableEq, Repr, Inhabited

/-- How a word is expanded. -/
structure Manner where
  tilde : Tilde
  /-- Whether the word will be divided into fields. -/
  fields : Bool
  /-- Whether the text of the word itself is divided. -/
  divides : Bool
  deriving DecidableEq, Repr, Inhabited

namespace Manner

/-- Words that become fields. -/
def words : Manner := ⟨.start, true, false⟩

/-- Words that stay as they are. -/
def text : Manner := ⟨.start, false, false⟩

/-- The values of assignments. -/
def assignment : Manner := ⟨.assignment, false, false⟩

/-- Documents and expressions. -/
def quoted : Manner := ⟨.nowhere, false, false⟩

end Manner

/-- The name behind a tilde, if it is not interrupted. -/
def tildeName? (assignment : Bool) : Word → Option (List Char)
  | .char c false :: rest =>
    if c = '/' ∨ (assignment ∧ c = ':') then some []
    else (tildeName? assignment rest).map (c :: ·)
  | [] => some []
  | .parameter .. :: _ => none
  | .output .. :: _ => none
  | .arithmetic .. :: _ => none
  | _ => none

/-- The home directory of a user. -/
def homeOf? (home : Option String) (name : List Char) : Option String :=
  if name.isEmpty then home else if name = "root".toList then some "/root" else none

/-- The atoms of the characters that a word starts with, and what follows them. So many
characters are passed over, and a tilde may stand at the start. -/
def literals (m : Manner) (home : Option String) (passed : Nat) (atStart : Bool) :
    Word → List Atom × Word
  | .char c quoted :: rest =>
    if passed ≠ 0 then literals m home (passed - 1) false rest
    else
      let replaced := if c = '~' ∧ !quoted ∧ atStart then
          (tildeName? (m.tilde = .assignment) rest).bind fun name =>
            (homeOf? home name).map fun path => (name, path)
        else none
      match replaced with
      | some (name, path) =>
        let (atoms, rest) := literals m home name.length false rest
        (Atom.ofValue path true ++ atoms, rest)
      | none =>
        let opens := m.tilde = .assignment && !quoted && c = ':'
        let (atoms, rest) := literals m home 0 opens rest
        (.char c quoted (m.divides && !quoted) :: atoms, rest)
  | rest => ([], rest)

namespace Sh

/-- The value of a parameter that stands for one text. -/
def parameter? (name : String) : Sh (Option String) := do
  let p ← process
  match name with
  | "$" => return some (ofNat p.rootNumber)
  | "?" => return some (ofNat p.status)
  | "#" => return some (ofNat p.arguments.length)
  | "!" => return p.lastBackground.map ofNat
  | "-" => return some (optionLetters p.options)
  | name =>
    match decimal? name with
    | some 0 => return some p.name
    | some n => return p.arguments[n - 1]?
    | none => return (p.bindings.get? name).bind (·.value)

/-- Texts with atoms between them. -/
def intersperse (between : List Atom) (quoted divides : Bool) : List String → List Atom
  | [] => []
  | [text] => text.toList.map fun c => .char c quoted divides
  | text :: rest =>
    (text.toList.map fun c => .char c quoted divides) ++ between ++
      intersperse between quoted divides rest

/-- The atoms of all arguments: each a field of its own, or with the first separator between
them. -/
def allArguments (each quoted fields : Bool) : Sh (List Atom) := do
  let arguments := (← process).arguments
  let separators ← separators
  let between : List Atom :=
    if quoted ∧ each ∧ fields then [.gap true]
    else if !quoted ∧ fields ∧ separators.isSome then [.gap false]
    else match separators with
      | none => [.char ' ' quoted (!quoted)]
      | some [] => []
      | some (c :: _) => [.char c quoted (!quoted)]
  return intersperse between quoted (!quoted) arguments

/-- Whether a parameter stands for all arguments. -/
def isArguments (name : String) : Bool := name = "@" || name = "*"

/-- The atoms of the value of a parameter, if it has one. -/
def valueAtoms? (m : Manner) (name : String) (quoted : Bool) : Sh (Option (List Atom)) := do
  if isArguments name then return some (← allArguments (name = "@") quoted m.fields)
  else return (← parameter? name).map (Atom.ofValue · quoted)

/-- The atoms of an expanded value with its edge. -/
def withEdge (name : String) (quoted : Bool) (atoms : List Atom) : Sh (List Atom) := do
  if !quoted then return atoms ++ [.edge false]
  else if name = "@" ∧ !(← process).arguments.isEmpty then return atoms ++ [.edge true]
  else return atoms

/-- The number of characters of atoms, with one for each gap. -/
def lengthOf (atoms : List Atom) : Nat :=
  (atoms.filter Atom.isContent).length

/-- Fail because a parameter has no value. -/
def failUnset {α : Type} (name message : String) : Sh α := fail (name ++ ": " ++ message)

/-- Fail if parameters without a value are errors. -/
def demand (name : String) : Sh Unit := do
  if ← hasOption 'u' then failUnset name "parameter not set"

/-- Evaluate an expression, with the assignments in it. -/
def reckon (text : String) : Sh String := do
  let p ← process
  let value (name : String) : Option String := (p.bindings.get? name).bind (·.value)
  match Arithmetic.evaluate value false text with
  | .ok (n, assigned) => do
    assigned.reverse.forM fun (name, n) => assign name (some (ofInt n.toInt)) false
    return ofInt n.toInt
  | .error (.malformed reason) =>
    fail ("arithmetic expression: " ++ reason ++ ": \"" ++ text ++ "\"")
  | .error (.notInteger value) => failNumber value
  | .error (.unset name) => failUnset name "parameter not set"

/-- The texts of the fields of atoms, with paths for patterns. -/
def fieldTexts (atoms : List Atom) : Sh (List String) := do
  let separators := (← separators).getD usualSeparators
  let fields := fieldsOf separators atoms
  if ← hasOption 'f' then return fields.map Atom.text
  else
    let p ← process
    let files ← files
    return fields.flatMap (Glob.expand files p.place)

end Sh

end Coordination.Shell
