import Coordination.Namespace.Entry
import Coordination.Template.Key

/-!
# The standard templates

Where the entries of the namespace are stored, unless templates of the same names replace
the standard ones. Releases live below `/domain/service/version`, live pointers below
`/domain/service/live`, and the other kinds of records below a first part of their own.
-/

namespace Coordination

namespace KeyTemplate

/-- A key template of given segments. -/
def ofSegments (name : String) (key value : List Segment) : KeyTemplate :=
  ⟨name, ⟨partName name keyName, key⟩, ⟨partName name valueName, value⟩⟩

end KeyTemplate

namespace TemplateSet

/-- The value of a field of the entry. -/
def fieldOf (name : String) : Segment := .field [name]

/-- The path of a service. -/
def servicePath : List Segment :=
  [.text "/", fieldOf "Domain", .text "/", fieldOf "Service"]

/-- The path of a release. -/
def releasePath : List Segment := servicePath ++ [.text "/", fieldOf "Version"]

/-- The path of a base tier. -/
def basePath : List Segment :=
  [.text "/", fieldOf "Kind", .text "/base/", fieldOf "DomainClass", .text "/",
    fieldOf "Service"]

/-- The path of an override tier. -/
def overridePath : List Segment :=
  [.text "/", fieldOf "Kind", .text "/override/", fieldOf "DomainClass", .text "/",
    fieldOf "DomainInstance", .text "/", fieldOf "Service", .text "/", fieldOf "Version"]

/-- The standard templates in the order of their names. -/
def standardList : List KeyTemplate :=
  [.ofSegments "conf-base" (basePath ++ [.text "/", fieldOf "Name"]) [],
    .ofSegments "conf-base-root" basePath [],
    .ofSegments "conf-override" (overridePath ++ [.text "/", fieldOf "Name"]) [],
    .ofSegments "conf-override-root" overridePath [],
    .ofSegments "container"
      (releasePath ++ [.text "/container/", fieldOf "Image", .text "/", fieldOf "ContainerId",
        .text ":", fieldOf "Port"])
      [fieldOf "Host", .text ":", fieldOf "HostPort"],
    .ofSegments "dashboard"
      [.text "/dashboard/", fieldOf "Domain", .text "/", fieldOf "Service", .text "/",
        fieldOf "Host", .text ":", fieldOf "Port"]
      [fieldOf "Url"],
    .ofSegments "env-entry" (releasePath ++ [.text "/env/", fieldOf "Name"])
      [fieldOf "Value"],
    .ofSegments "env-root" (releasePath ++ [.text "/env"]) [],
    .ofSegments "image-count" (releasePath ++ [.text "/container/", fieldOf "Image"])
      [fieldOf "Count"],
    .ofSegments "live" (servicePath ++ [.text "/live"])
      [fieldOf "ContainerPath", .text ",", fieldOf "EnvPath"],
    .ofSegments "live-watch" (servicePath ++ [.text "/live/watch"]) [.text "0"],
    .ofSegments "release" releasePath [fieldOf "Image"],
    .ofSegments "release-watch" (releasePath ++ [.text "/watch"]) [.text "0"]]

/-- The standard templates. -/
def standard : TemplateSet where
  templates := ⟨standardList.map fun t => (t.name, t), by
    simp only [Ascending, standardList, List.map_cons, List.map_nil, KeyTemplate.ofSegments]
    decide⟩

/-- The standard templates with others added, in place of those of the same names. The
first of the others that does not compile, in the order of names, is the error. -/
def withOverrides (overrides : OrderedMap String) : Except TemplateError TemplateSet :=
  standard.addAll overrides.toList

/-- The path and the payload of an entry. -/
def derive (set : TemplateSet) (e : Entry) : Except TemplateError (String × String) :=
  set.deriveFields e.template e.fields

/-- The path of an entry. The payload must be derivable too. -/
def path (set : TemplateSet) (e : Entry) : Except TemplateError String :=
  (set.derive e).map Prod.fst

end TemplateSet

end Coordination
