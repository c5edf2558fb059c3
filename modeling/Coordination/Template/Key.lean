import Coordination.OrderedMap
import Coordination.Template.Section

/-!
# Key templates

A key template derives a path and a payload from the fields of an entry. It is compiled from
a source with exactly two blocks, one for the key and one for the value, in either order. A
set of key templates is looked up by name; compiling a set fails with the first source that
does not compile.
-/

namespace Coordination

/-- A template for a path and one for the payload stored there. -/
structure KeyTemplate where
  name : String
  key : Template
  value : Template
  deriving DecidableEq, Repr, Inhabited

namespace KeyTemplate

/-- The name of the block that gives the path. -/
def keyName : String := "KEY"

/-- The name of the block that gives the payload. -/
def valueName : String := "VALUE"

/-- The name under which a block reports its errors. -/
def partName (name part : String) : String := name ++ "/" ++ part

/-- Compile blocks in order, given the templates found before them. -/
def compileSections (name : String) :
    List Section → Option Template → Option Template →
      Except TemplateError (Option Template × Option Template)
  | [], key, value => .ok (key, value)
  | s :: rest, key, value =>
    if s.name = keyName then
      if key.isSome then .error (.parse name (.repeatedSection s.name))
      else do
        let t ← Template.parse (partName name keyName) s.body
        compileSections name rest (some t) value
    else if s.name = valueName then
      if value.isSome then .error (.parse name (.repeatedSection s.name))
      else do
        let t ← Template.parse (partName name valueName) s.body
        compileSections name rest key (some t)
    else .error (.parse name (.unexpectedSection s.name))

/-- Compile a source. -/
def compile (name source : String) : Except TemplateError KeyTemplate := do
  let sections ← Section.parse name source
  match ← compileSections name sections none none with
  | (none, _) => .error (.missingSection name keyName)
  | (some _, none) => .error (.missingSection name valueName)
  | (some key, some value) => .ok ⟨name, key, value⟩

end KeyTemplate

/-- Key templates by name. -/
structure TemplateSet where
  templates : OrderedMap KeyTemplate
  deriving DecidableEq

instance : Inhabited TemplateSet := ⟨⟨.empty⟩⟩

namespace TemplateSet

/-- Add compiled sources to a set, in place of templates with their names. -/
def addAll (set : TemplateSet) : List (String × String) → Except TemplateError TemplateSet
  | [] => .ok set
  | (name, source) :: rest => do
    let t ← KeyTemplate.compile name source
    (TemplateSet.mk (set.templates.insert name t)).addAll rest

/-- Compile named sources. -/
def compile (sources : List (String × String)) : Except TemplateError TemplateSet :=
  (TemplateSet.mk .empty).addAll sources

/-- The templates in the order of their names. -/
def toList (set : TemplateSet) : List KeyTemplate := set.templates.values

/-- The path and the payload that a template derives from fields. -/
def deriveFields (set : TemplateSet) (name : String) (fields : Data) :
    Except TemplateError (String × String) :=
  match set.templates.get? name with
  | none => .error (.unknownTemplate name)
  | some t =>
    match fields with
    | .table _ => do
      let key ← t.key.render fields
      let value ← t.value.render fields
      .ok (key, value)
    | given => .error (.notFields name given)

end TemplateSet

end Coordination
