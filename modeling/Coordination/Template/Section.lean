import Coordination.Template.Basic

/-!
# Define blocks

A source made of named blocks: each is opened by a define action with a quoted name and
closed by an end action. Only blanks may stand between blocks. A body ends at the first end
action after its opening, whatever the body holds.
-/

namespace Coordination

/-- A block of a source. -/
structure Section where
  name : String
  body : String
  deriving DecidableEq, Repr, Inhabited

namespace Section

/-- What a block starts with. -/
def defineMark : List Char := Segment.opening ++ "define".toList

/-- What a block ends with. -/
def endMark : List Char := Segment.opening ++ "end".toList ++ Segment.closing

/-- The text between two quotes, if there is any. -/
def unquote? (s : List Char) : Option (List Char) :=
  match s with
  | '"' :: rest =>
    match rest.reverse with
    | '"' :: inner => if inner = [] then none else some inner.reverse
    | _ => none
  | _ => none

/-- The blocks of a source whose leading blanks are dropped. -/
def parseFrom (s : List Char) : Except TemplateFault (List Section) :=
  if s = [] then .ok []
  else
    match _header : Text.afterStart defineMark s with
    | none => .error .missingDefine
    | some header =>
      match _title : Text.breakOn Segment.closing header with
      | none => .error .unterminatedDefine
      | some (title, rest) =>
        match unquote? (Text.trim title) with
        | none => .error .unquotedName
        | some name =>
          match _body : Text.breakOn endMark rest with
          | none => .error (.missingEnd (String.ofList name))
          | some (body, after) => do
            let sections ← parseFrom (Text.trimStart after)
            .ok (⟨String.ofList name, String.ofList body⟩ :: sections)
termination_by s.length
decreasing_by
  have l₁ := congrArg List.length (Text.afterStart_eq_some_iff.1 _header)
  have l₂ := congrArg List.length (Text.breakOn_eq_append _title)
  have l₃ := congrArg List.length (Text.breakOn_eq_append _body)
  have l₄ := Text.length_trimStart_le after
  have l₅ : 0 < defineMark.length := by decide
  simp only [List.length_append] at l₁ l₂ l₃
  omega

/-- The blocks of a source. -/
def parse (template source : String) : Except TemplateError (List Section) :=
  match parseFrom (Text.trimStart source.toList) with
  | .ok sections => .ok sections
  | .error fault => .error (.parse template fault)

/-- The source of a block. -/
def source (b : Section) : List Char :=
  defineMark ++ " \"".toList ++ b.name.toList ++ '"' :: Segment.closing ++
    b.body.toList ++ endMark

end Section

end Coordination
