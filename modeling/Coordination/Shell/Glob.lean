import Coordination.Files.Change
import Coordination.Shell.Field
import Coordination.Shell.Pattern

/-!
# Paths by patterns

A field with a pattern stands for the paths that it describes, in the order of their bytes,
or for itself if there are none. Slashes divide the pattern; a part that is no pattern is
only a name on the way. Names that start with a point are described by parts that do.
-/

namespace Coordination.Shell

namespace Glob

/-- Divide the characters of a pattern at slashes. -/
def divideParts : List PatternChar → List (List PatternChar)
  | [] => [[]]
  | ('/', _) :: rest => [] :: divideParts rest
  | c :: rest =>
    match divideParts rest with
    | part :: parts => (c :: part) :: parts
    | [] => [[c]]

/-- The text that characters of a pattern stand for if they are no pattern. -/
def plainText (part : List PatternChar) : String :=
  String.ofList ((Pattern.quoteEscaped part).map Prod.fst)

/-- The names in a directory, with those of itself and of the one above. -/
def namesIn (files : Files) (place : Place) (path : String) : List String :=
  match files.find place (if path = "" then "." else toText path) with
  | .ok (place, .directory) => "." :: ".." :: (files.entries place).map ofText
  | _ => []

/-- Whether a name may be described by a part. -/
def isOffered (part : List PatternChar) (name : String) : Bool :=
  !name.startsWith "." || (Pattern.quoteEscaped part).head?.any fun p => p.1 = '.'

/-- The paths that go on from a path as the parts describe. -/
def pathsFrom (files : Files) (place : Place) (path : String) (found : Bool) :
    List (List PatternChar) → List String
  | [] => []
  | [part] =>
    let pattern := Pattern.ofChars part
    if Pattern.isOpen pattern then
      ((namesIn files place path).filter fun name =>
        isOffered part name && Pattern.describes pattern name.toList).map (path ++ ·)
    else
      let whole := path ++ plainText part
      if found && files.hasItem place (toText whole) then [whole] else []
  | part :: parts =>
    let pattern := Pattern.ofChars part
    if Pattern.isOpen pattern then
      ((namesIn files place path).filter fun name =>
        isOffered part name && Pattern.describes pattern name.toList).flatMap fun name =>
          pathsFrom files place (path ++ name ++ "/") true parts
    else pathsFrom files place (path ++ plainText part ++ "/") found parts

/-- The texts that a field stands for. -/
def expand (files : Files) (place : Place) (field : List Atom) : List String :=
  let chars := Atom.patternChars field
  let parts := divideParts chars
  if parts.any fun part => Pattern.isOpen (Pattern.ofChars part) then
    match (pathsFrom files place "" false parts).mergeSort fun a b => a ≤ b with
    | [] => [Atom.text field]
    | paths => paths
  else [Atom.text field]

end Glob

end Coordination.Shell
