import Coordination.Text.Split

/-!
# Identifiers with parts

References to images, and pairs of texts written with one separator. Every reader here has
its format: the repository and the tag around the last colon, the version and the build
around the last hyphen of the tag, and two parts around the only separator of a pair.
-/

namespace Coordination

/-- A reference to an image: a repository and a tag. -/
structure ImageReference where
  repository : String
  tag : String
  deriving DecidableEq, Repr, Inhabited

/-- A text that is no reference to an image. -/
structure BadImage where
  text : String
  deriving DecidableEq, Repr, Inhabited

namespace BadImage

/-- The wording of the error. -/
def message (e : BadImage) : String := "bad image reference: " ++ e.text

end BadImage

namespace ImageReference

/-- The repository and the tag of a reference. A colon before a slash belongs to a port,
so what follows the last colon is a tag only if it has no slash. -/
def parse (s : String) : Except BadImage ImageReference :=
  match Text.splitLast ':' s.toList with
  | some (repository, tag) =>
    if '/' ∈ tag then .error ⟨s⟩
    else .ok ⟨String.ofList repository, String.ofList tag⟩
  | none => .error ⟨s⟩

/-- The version and the build of a tag; the build is empty if there is no hyphen. -/
def versionAndBuild (r : ImageReference) : String × String :=
  match Text.splitLast '-' r.tag.toList with
  | some (version, build) => (String.ofList version, String.ofList build)
  | none => (r.tag, "")

end ImageReference

/-- An image by its repository, its version and its build. -/
structure ImageVersion where
  repository : String
  version : String
  build : String
  deriving DecidableEq, Repr, Inhabited

namespace ImageVersion

/-- The image that a reference names. -/
def ofReference (r : ImageReference) : ImageVersion :=
  ⟨r.repository, r.versionAndBuild.1, r.versionAndBuild.2⟩

/-- The repository, the version and the build of a reference. -/
def parse (s : String) : Except BadImage ImageVersion :=
  (ImageReference.parse s).map ofReference

end ImageVersion

namespace Text

/-- The two parts of a text that has `separator` exactly once. -/
def splitPair? (separator : Char) (s : String) : Option (String × String) :=
  match splitFirst separator s.toList with
  | some (first, second) =>
    if separator ∈ second then none
    else some (String.ofList first, String.ofList second)
  | none => none

end Text

/-- The container path and the environment path of a live pointer's payload. -/
def parseLiveValue? (s : String) : Option (String × String) := Text.splitPair? ',' s

/-- The host and the port of an address. -/
def parseHostPort? (s : String) : Option (String × String) := Text.splitPair? ':' s

end Coordination
