import Coordination.Namespace.Entry

/-!
# Scopes as document values

A scope is written as a table with its tier and its fields, or as a list of them in that
order. The tier is looked at first, because it says which fields there are.
-/

namespace Coordination.Scope

/-- The fields of a base scope. -/
def baseReader : RecordReader Scope := .base <$> .text "domain_class" <*> .text "service"

/-- The fields of an override scope. -/
def overrideReader : RecordReader Scope :=
  .override <$> .text "domain_class" <*> .text "domain_instance" <*> .text "service"
    <*> .text "version"

/-- The reader for the tier that a value names. -/
def readerOf : Data → Except ReadError (RecordReader Scope)
  | .text "base" => .ok baseReader
  | .text "override" => .ok overrideReader
  | .text name => .error (.unknownVariant name [Tier.base.name, Tier.override.name])
  | _ => .error .malformed

/-- Read a scope. -/
def read (dialect : Dialect) : Data → Except ReadError Scope
  | .table fields =>
    match fields.lookup "tier" with
    | none => .error (.missingField "tier")
    | some tier => do
      let reader ← readerOf tier
      reader.readFields false fields
  | .list (tier :: items) => do
    let reader ← readerOf tier
    reader.readItems dialect false items
  | .list [] => .error (.missingField "tier")
  | _ => .error .malformed

/-- The fields of a scope without its tier. -/
def fields : Scope → List (String × String)
  | .base domainClass service => [("domain_class", domainClass), ("service", service)]
  | .override domainClass domainInstance service version =>
    [("domain_class", domainClass), ("domain_instance", domainInstance),
      ("service", service), ("version", version)]

/-- A scope as a document value. -/
def toData (s : Scope) : Data := .texts (("tier", s.tier.name) :: s.fields)

end Coordination.Scope
