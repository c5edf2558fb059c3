import Coordination.Data.Basic
import Coordination.OrderedMap

/-!
# Reading records

Typed values from document values. A record is read from a table by the names of its
fields, or from a list by their order. Fields that are present are looked at first, in the
order of the document; only then a missing field is an error, the first in the order of
declaration. Two kinds of documents differ in three details, which a `Dialect` states.
-/

namespace Coordination

/-- Why a value is not of the expected form. -/
inductive ReadError where
  | missingField (name : String)
  | unknownField (name : String) (known : List String)
  | unknownVariant (name : String) (known : List String)
  /-- Any other misfit, such as a number in place of a text. -/
  | malformed
  deriving DecidableEq, Repr, Inhabited

namespace ReadError

/-- A name between grave accents. -/
def accented (name : String) : String := "`" ++ name ++ "`"

/-- The names that would have been accepted. -/
def expected : List String → String
  | [] => "there are no names"
  | [a] => "expected " ++ accented a
  | [a, b] => "expected " ++ accented a ++ " or " ++ accented b
  | names => "expected one of " ++ ", ".intercalate (names.map accented)

/-- The wording of an error about a name; other misfits have none. -/
def message? : ReadError → Option String
  | .missingField name => some ("missing field " ++ accented name)
  | .unknownField name known =>
    some ("unknown field " ++ accented name ++ ", " ++ expected known)
  | .unknownVariant name known =>
    some ("unknown variant " ++ accented name ++ ", " ++ expected known)
  | .malformed => none

end ReadError

/-- What kinds of documents disagree about. -/
structure Dialect where
  /-- Whether a list may have more items than the record has fields. -/
  moreItems : Bool
  /-- The values that may stand beside the name of a variant. -/
  isUnit : Data → Bool
  /-- The field that holds the text of a moment where a table is expected, if moments can
  be read as tables. -/
  momentField : Option String

namespace Dialect

/-- JSON: no further items, and `null` beside a variant. -/
def json : Dialect where
  moreItems := false
  isUnit
    | .null => true
    | _ => false
  momentField := none

/-- TOML: further items are passed over, and an empty list or table stands beside a
variant. -/
def toml : Dialect where
  moreItems := true
  isUnit
    | .list [] => true
    | .table [] => true
    | _ => false
  momentField := some "$__toml_private_datetime"

/-- The fields of a value that is a table or can be read as one. -/
def fields? (dialect : Dialect) : Data → Option (List (String × Data))
  | .table fields => some fields
  | .moment s => dialect.momentField.map fun name => [(name, .text s)]
  | _ => none

end Dialect

namespace Data

/-- A text. -/
def readText : Data → Except ReadError String
  | .text s => .ok s
  | _ => .error .malformed

/-- A text, or nothing. -/
def readOptionalText : Data → Except ReadError (Option String)
  | .null => .ok none
  | d => d.readText.map some

/-- A natural number up to `bound`, written as an integer. -/
def readNat (bound : Nat) : Data → Except ReadError Nat
  | .number (.int n) => if 0 ≤ n ∧ n ≤ bound then .ok n.toNat else .error .malformed
  | _ => .error .malformed

/-- A list of texts. -/
def readTexts : Data → Except ReadError (List String)
  | .list items => items.mapM readText
  | _ => .error .malformed

/-- A set of texts, ascending. -/
def readTextSet (d : Data) : Except ReadError (OrderedMap Unit) :=
  d.readTexts.map fun names => OrderedMap.ofList (names.map (·, ()))

/-- A table of texts. -/
def readTextMap (dialect : Dialect) (d : Data) : Except ReadError (OrderedMap String) :=
  match dialect.fields? d with
  | some fields =>
    (fields.mapM fun (p : String × Data) => p.2.readText.map (p.1, ·)).map OrderedMap.ofList
  | none => .error .malformed

/-- One of several named variants: its name, or a table of its name and a unit. -/
def readVariant {α : Type} (dialect : Dialect) (variants : List (String × α)) :
    Data → Except ReadError α
  | .text name => select name
  | .table [(name, d)] => do
    let a ← select name
    if dialect.isUnit d then .ok a else .error .malformed
  | _ => .error .malformed
where
  select (name : String) : Except ReadError α :=
    match variants.lookup name with
    | some a => .ok a
    | none => .error (.unknownVariant name (variants.map (·.1)))

end Data

/-- How a record is read: its fields in the order of declaration, what each accepts, and
the record from the fields that are present. -/
structure RecordReader (α : Type) where
  fields : List String
  check : String → Data → Except ReadError Unit
  build : (String → Option Data) → Except ReadError α

namespace RecordReader

variable {α β : Type}

/-- A field that must be present. -/
def required (name : String) (read : Data → Except ReadError α) : RecordReader α where
  fields := [name]
  check n d := if n = name then (read d).map fun _ => () else .ok ()
  build value? :=
    match value? name with
    | some d => read d
    | none => .error (.missingField name)

/-- A field that has the value `absent` if it is not present. -/
def optional (name : String) (read : Data → Except ReadError α) (absent : α) :
    RecordReader α where
  fields := [name]
  check n d := if n = name then (read d).map fun _ => () else .ok ()
  build value? :=
    match value? name with
    | some d => read d
    | none => .ok absent

/-- A required text field. -/
def text (name : String) : RecordReader String := required name Data.readText

def map (f : α → β) (r : RecordReader α) : RecordReader β where
  fields := r.fields
  check := r.check
  build value? := (r.build value?).map f

/-- The fields of two readers, those of the first first. -/
def both (r : RecordReader (α → β)) (s : RecordReader α) : RecordReader β where
  fields := r.fields ++ s.fields
  check name d := (r.check name d).bind fun _ => s.check name d
  build value? := (r.build value?).bind fun f => (s.build value?).map f

instance : Functor RecordReader where
  map := map

instance : Seq RecordReader where
  seq r s := r.both (s ())

/-- Look at the fields of a table in order. A strict reader refuses names it does not
declare. -/
def checkAll (r : RecordReader α) (strict : Bool) :
    List (String × Data) → Except ReadError Unit
  | [] => .ok ()
  | (name, d) :: rest =>
    if r.fields.contains name then (r.check name d).bind fun _ => r.checkAll strict rest
    else if strict then .error (.unknownField name r.fields)
    else r.checkAll strict rest

/-- Read a record from a list of the values of its fields. -/
def readItems (r : RecordReader α) (dialect : Dialect) (strict : Bool) (items : List Data) :
    Except ReadError α := do
  let fields := r.fields.zip items
  r.checkAll strict fields
  let a ← (r.build fun name => fields.lookup name).mapError fun _ => .malformed
  if items.length ≤ r.fields.length ∨ dialect.moreItems then .ok a else .error .malformed

/-- Read a record from a table of its fields. -/
def readFields (r : RecordReader α) (strict : Bool) (fields : List (String × Data)) :
    Except ReadError α := do
  r.checkAll strict fields
  r.build fun name => fields.lookup name

/-- Read a record from a table or from a list. -/
def read (r : RecordReader α) (dialect : Dialect) (strict : Bool) (d : Data) :
    Except ReadError α :=
  match d with
  | .list items => r.readItems dialect strict items
  | d =>
    match dialect.fields? d with
    | some fields => r.readFields strict fields
    | none => .error .malformed

end RecordReader

end Coordination
