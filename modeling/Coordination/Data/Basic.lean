import Coordination.Number.Literal

/-!
# Document values

The values that configuration documents, entries and render contexts are made of. A table
keeps its fields in the order of its document; a look-up takes the first field of a name.
Dates and times are kept as their canonical texts and not interpreted.
-/

namespace Coordination

/-- A value of a document. -/
inductive Data where
  | null
  | bool (b : Bool)
  | number (n : Number)
  | text (s : String)
  /-- An infinity, or no number at all. -/
  | nonFinite
  /-- A date, a time, or both, by its text. -/
  | moment (s : String)
  | list (items : List Data)
  | table (fields : List (String × Data))
  deriving Inhabited

namespace Data

/-- An integer. -/
def int (n : Int) : Data := .number (.int n)

/-- A natural number. -/
def nat (n : Nat) : Data := .int n

/-- A table with text fields. -/
def texts (fields : List (String × String)) : Data :=
  .table (fields.map fun p => (p.1, .text p.2))

/-- The value of a field, if this is a table with that field. -/
def field? (d : Data) (name : String) : Option Data :=
  match d with
  | .table fields => fields.lookup name
  | _ => none

/-- Put a field where its name belongs in ascending order, in place of one of that name. -/
def insertField (name : String) (d : Data) (fields : List (String × Data)) :
    List (String × Data) :=
  match fields with
  | [] => [(name, d)]
  | (name', d') :: rest =>
    if name < name' then (name, d) :: (name', d') :: rest
    else if name = name' then (name, d) :: rest
    else (name', d') :: insertField name d rest

/-- Fields in ascending order of their names; of two with one name the later counts. -/
def sortFields (fields : List (String × Data)) : List (String × Data) :=
  fields.foldl (fun sorted p => insertField p.1 p.2 sorted) []

end Data

end Coordination
