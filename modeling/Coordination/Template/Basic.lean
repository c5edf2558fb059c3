import Coordination.Data.Json
import Coordination.Text.Split

/-!
# Field templates

A template is literal text with actions: a dotted field path between double braces. Parsing
cuts a source at its double braces from left to right; rendering replaces each action by the
scalar that its path leads to. The text put in place of an action is never looked at again.
There is no other kind of action, and no way to write two opening braces as text.
-/

namespace Coordination

/-- A piece of a template. -/
inductive Segment where
  | text (s : String)
  /-- The value that the path leads to. -/
  | field (path : List String)
  deriving DecidableEq, Repr, Inhabited

/-- Why a source is not a template, or not a pair of templates. -/
inductive TemplateFault where
  | unterminatedAction
  | unsupportedAction (action : String)
  | badField (path : String)
  | missingDefine
  | unterminatedDefine
  | unquotedName
  | missingEnd (name : String)
  | unexpectedSection (name : String)
  | repeatedSection (name : String)
  deriving DecidableEq, Repr, Inhabited

/-- Why a template cannot be compiled, found or rendered. -/
inductive TemplateError where
  | missingSection (template name : String)
  | parse (template : String) (fault : TemplateFault)
  | unknownTemplate (name : String)
  | unresolved (template field : String)
  /-- A set of fields was needed, and something else was given. -/
  | notFields (template : String) (given : Data)
  deriving Inhabited

namespace TemplateFault

/-- The wording of the fault. -/
def message : TemplateFault → String
  | .unterminatedAction => "unterminated action"
  | .unsupportedAction action => "unsupported action \x7b\x7b" ++ action ++ "\x7d\x7d"
  | .badField path => "bad field reference ." ++ path
  | .missingDefine => "expected \x7b\x7bdefine \"NAME\"\x7d\x7d"
  | .unterminatedDefine => "unterminated define"
  | .unquotedName => "define needs a quoted name"
  | .missingEnd name => "define \"" ++ name ++ "\" has no \x7b\x7bend\x7d\x7d"
  | .unexpectedSection name => "unexpected section \"" ++ name ++ "\""
  | .repeatedSection name => "section \"" ++ name ++ "\" defined twice"

end TemplateFault

namespace TemplateError

/-- The wording of the error. -/
def message : TemplateError → String
  | .missingSection template name => s!"template {template}: missing {name} section"
  | .parse template fault => s!"template {template}: {fault.message}"
  | .unknownTemplate name => s!"unknown template: {name}"
  | .unresolved template field => s!"template {template}: cannot resolve .{field}"
  | .notFields template given =>
    s!"entry cannot be rendered: {template} needs a field map, got {given.toJson}"

end TemplateError

/-- A named template. The name appears in errors only. -/
structure Template where
  name : String
  segments : List Segment
  deriving DecidableEq, Repr, Inhabited

namespace Data

/-- The text of a scalar. -/
def scalarText? : Data → Option String
  | .text s => some s
  | .number n => some n.toText
  | .bool b => some (if b then "true" else "false")
  | _ => none

/-- The value that a path of field names leads to. -/
def descend? (d : Data) : List String → Option Data
  | [] => some d
  | name :: path => (d.field? name).bind fun inner => inner.descend? path

end Data

namespace Segment

/-- The two braces that open an action. -/
def opening : List Char := ['\x7b', '\x7b']

/-- The two braces that close an action. -/
def closing : List Char := ['\x7d', '\x7d']

/-- The characters of field names: ASCII letters, digits and the underscore. -/
def isNameChar (c : Char) : Bool := c.isAlphanum || c = '_'

/-- Whether the text is a field name. -/
def isName (s : List Char) : Bool := s ≠ [] && s.all isNameChar

/-- The segment of a text, if there is any text. -/
def ofText (s : List Char) : List Segment :=
  if s = [] then [] else [.text (String.ofList s)]

/-- The path of an action, given without blanks around it. -/
def parsePath (action : List Char) : Except TemplateFault (List String) :=
  match action with
  | '.' :: path =>
    let names := Text.splitAll '.' path
    if names.all isName then .ok (names.map String.ofList)
    else .error (.badField (String.ofList path))
  | action => .error (.unsupportedAction (String.ofList action))

/-- The segments of a source. -/
def parse (s : List Char) : Except TemplateFault (List Segment) :=
  match _before : Text.breakOn opening s with
  | none => .ok (ofText s)
  | some (before, after) =>
    match _action : Text.breakOn closing after with
    | none => .error .unterminatedAction
    | some (action, rest) => do
      let path ← parsePath (Text.trim action)
      let segments ← parse rest
      .ok (ofText before ++ .field path :: segments)
termination_by s.length
decreasing_by
  have h₁ := congrArg List.length (Text.breakOn_eq_append _before)
  have h₂ := congrArg List.length (Text.breakOn_eq_append _action)
  simp only [List.length_append, opening, closing, List.length_cons, List.length_nil] at h₁ h₂
  omega

/-- The source of a segment, without blanks in actions. -/
def source : Segment → List Char
  | .text s => s.toList
  | .field path => opening ++ path.flatMap (fun name => '.' :: name.toList) ++ closing

/-- The text of a segment in a context. A field must lead to a scalar. -/
def render (template : String) (context : Data) : Segment → Except TemplateError String
  | .text s => .ok s
  | .field path =>
    match (context.descend? path).bind Data.scalarText? with
    | some s => .ok s
    | none => .error (.unresolved template (".".intercalate path))

end Segment

namespace Template

/-- Compile a source. -/
def parse (name : String) (source : String) : Except TemplateError Template :=
  match Segment.parse source.toList with
  | .ok segments => .ok ⟨name, segments⟩
  | .error fault => .error (.parse name fault)

/-- The paths of the actions in source order, joined with points. -/
def fields (t : Template) : List String :=
  t.segments.filterMap fun
    | .field path => some (".".intercalate path)
    | .text _ => none

/-- The text of the template in a context. -/
def render (t : Template) (context : Data) : Except TemplateError String :=
  (t.segments.mapM (Segment.render t.name context)).map fun parts => String.join parts

/-- A source that compiles to the template. -/
def source (t : Template) : String := String.ofList (t.segments.flatMap Segment.source)

end Template

end Coordination
