import Coordination.Data.Record

/-!
# Entries of the namespace

What the tree holds, each kind of record with its own fields: environments and their
variables, releases and their images, containers, live pointers, dashboards, and the two
tiers of configuration objects. An entry knows the name of the template that places it in
the tree and the fields that the template may use. Nothing is said here about paths.
-/

namespace Coordination

/-- What identifies a release. -/
structure ReleaseId where
  domain : String
  service : String
  version : String
  deriving DecidableEq, Repr, Inhabited

/-- The image that a release runs. -/
structure Release where
  id : ReleaseId
  image : String
  deriving DecidableEq, Repr, Inhabited

/-- A running container of a release, and where its host serves its port. -/
structure Container where
  release : Release
  containerId : String
  port : UInt16
  host : String
  hostPort : UInt16
  deriving DecidableEq, Repr, Inhabited

/-- The container directory and the environment that are live for a service. -/
structure LivePointer where
  domain : String
  service : String
  containerPath : String
  envPath : String
  deriving DecidableEq, Repr, Inhabited

/-- An endpoint that shows a dashboard of a service. -/
structure Dashboard where
  domain : String
  service : String
  host : String
  port : UInt16
  url : String
  deriving DecidableEq, Repr, Inhabited

/-- What a configuration object holds. -/
inductive ConfKind where
  | config
  | package
  deriving DecidableEq, Repr, Inhabited

namespace ConfKind

/-- The kinds by their names. -/
def all : List (String × ConfKind) := [("conf", .config), ("pkg", .package)]

/-- The name of a kind, which is also the first part of its paths. -/
def name : ConfKind → String
  | .config => "conf"
  | .package => "pkg"

end ConfKind

/-- The two tiers of configuration. -/
inductive Tier where
  | base
  | override
  deriving DecidableEq, Repr, Inhabited

namespace Tier

/-- The name of a tier. -/
def name : Tier → String
  | .base => "base"
  | .override => "override"

end Tier

/-- Which directory of configuration objects is meant: the one for all instances of a
domain class, or the one for a release of one instance. -/
inductive Scope where
  | base (domainClass service : String)
  | override (domainClass domainInstance service version : String)
  deriving DecidableEq, Repr, Inhabited

namespace Scope

/-- The tier of a scope. -/
def tier : Scope → Tier
  | .base .. => .base
  | .override .. => .override

/-- The scope that is read when an object is missing at this one. -/
def fallback? : Scope → Option Scope
  | .base .. => none
  | .override domainClass _ service _ => some (.base domainClass service)

end Scope

/-- A record of the namespace. -/
inductive Entry where
  | envRoot (id : ReleaseId)
  | envEntry (id : ReleaseId) (name value : String)
  | release (r : Release)
  | releaseWatch (id : ReleaseId)
  | imageCount (r : Release) (count : UInt32)
  | container (c : Container)
  | live (p : LivePointer)
  | liveWatch (domain service : String)
  | dashboard (d : Dashboard)
  | confRoot (kind : ConfKind) (scope : Scope)
  | confObject (kind : ConfKind) (scope : Scope) (name : String)
  deriving DecidableEq, Repr, Inhabited

/-- A variable of the release's environment. -/
def ReleaseId.variable (id : ReleaseId) (name value : String) : Entry :=
  .envEntry id name value

namespace Entry

/-- The name of the template that places the entry. -/
def template : Entry → String
  | .envRoot _ => "env-root"
  | .envEntry .. => "env-entry"
  | .release _ => "release"
  | .releaseWatch _ => "release-watch"
  | .imageCount .. => "image-count"
  | .container _ => "container"
  | .live _ => "live"
  | .liveWatch .. => "live-watch"
  | .dashboard _ => "dashboard"
  | .confRoot _ (.base ..) => "conf-base-root"
  | .confRoot _ (.override ..) => "conf-override-root"
  | .confObject _ (.base ..) _ => "conf-base"
  | .confObject _ (.override ..) _ => "conf-override"

/-- The fields of a release's identity. -/
def idFields (id : ReleaseId) : List (String × Data) :=
  [("Domain", .text id.domain), ("Service", .text id.service), ("Version", .text id.version)]

/-- The fields of a release. -/
def releaseFields (r : Release) : List (String × Data) :=
  idFields r.id ++ [("Image", .text r.image)]

/-- The fields of a scope. -/
def scopeFields : Scope → List (String × Data)
  | .base domainClass service =>
    [("DomainClass", .text domainClass), ("Service", .text service)]
  | .override domainClass domainInstance service version =>
    [("DomainClass", .text domainClass), ("DomainInstance", .text domainInstance),
      ("Service", .text service), ("Version", .text version)]

/-- The fields of an entry, in the order of declaration. -/
def fieldList : Entry → List (String × Data)
  | .envRoot id => idFields id
  | .envEntry id name value => idFields id ++ [("Name", .text name), ("Value", .text value)]
  | .release r => releaseFields r
  | .releaseWatch id => idFields id
  | .imageCount r count => releaseFields r ++ [("Count", .nat count.toNat)]
  | .container c =>
    releaseFields c.release ++
      [("ContainerId", .text c.containerId), ("Port", .nat c.port.toNat),
        ("Host", .text c.host), ("HostPort", .nat c.hostPort.toNat)]
  | .live p =>
    [("Domain", .text p.domain), ("Service", .text p.service),
      ("ContainerPath", .text p.containerPath), ("EnvPath", .text p.envPath)]
  | .liveWatch domain service => [("Domain", .text domain), ("Service", .text service)]
  | .dashboard d =>
    [("Domain", .text d.domain), ("Service", .text d.service), ("Host", .text d.host),
      ("Port", .nat d.port.toNat), ("Url", .text d.url)]
  | .confRoot kind scope => ("Kind", .text kind.name) :: scopeFields scope
  | .confObject kind scope name =>
    ("Kind", .text kind.name) :: scopeFields scope ++ [("Name", .text name)]

/-- The fields of an entry as a table. -/
def fields (e : Entry) : Data := .table e.fieldList

end Entry

/-! ## Reading entries -/

namespace Data

/-- A port number. -/
def readPort (d : Data) : Except ReadError UInt16 :=
  (d.readNat 65535).map UInt16.ofNat

/-- A count of 32 bits. -/
def readCount (d : Data) : Except ReadError UInt32 :=
  (d.readNat 4294967295).map UInt32.ofNat

/-- The name of a kind of configuration object. -/
def readConfKind (dialect : Dialect) : Data → Except ReadError ConfKind :=
  readVariant dialect ConfKind.all

end Data

namespace RecordReader

/-- What identifies a release. -/
def releaseId : RecordReader ReleaseId :=
  ReleaseId.mk <$> text "Domain" <*> text "Service" <*> text "Version"

/-- A release with its image. -/
def release : RecordReader Release := Release.mk <$> releaseId <*> text "Image"

/-- A container. -/
def container : RecordReader Container :=
  Container.mk <$> release <*> text "ContainerId" <*> required "Port" Data.readPort
    <*> text "Host" <*> required "HostPort" Data.readPort

/-- A live pointer. -/
def livePointer : RecordReader LivePointer :=
  LivePointer.mk <$> text "Domain" <*> text "Service" <*> text "ContainerPath"
    <*> text "EnvPath"

/-- A dashboard. -/
def dashboard : RecordReader Dashboard :=
  Dashboard.mk <$> text "Domain" <*> text "Service" <*> text "Host"
    <*> required "Port" Data.readPort <*> text "Url"

/-- The kind of a configuration object. -/
def confKind (dialect : Dialect) : RecordReader ConfKind :=
  required "Kind" (Data.readConfKind dialect)

/-- The scope of a base tier. -/
def baseScope : RecordReader Scope := Scope.base <$> text "DomainClass" <*> text "Service"

/-- The scope of an override tier. -/
def overrideScope : RecordReader Scope :=
  Scope.override <$> text "DomainClass" <*> text "DomainInstance" <*> text "Service"
    <*> text "Version"

end RecordReader

namespace Entry

open RecordReader in
/-- How the entries of a template are read. -/
def reader? (dialect : Dialect) (template : String) : Option (RecordReader Entry) :=
  match template with
  | "env-root" => some (.envRoot <$> releaseId)
  | "env-entry" => some (.envEntry <$> releaseId <*> text "Name" <*> text "Value")
  | "release" => some (.release <$> RecordReader.release)
  | "release-watch" => some (.releaseWatch <$> releaseId)
  | "image-count" =>
    some (.imageCount <$> RecordReader.release <*> required "Count" Data.readCount)
  | "container" => some (.container <$> RecordReader.container)
  | "live" => some (.live <$> livePointer)
  | "live-watch" => some (.liveWatch <$> text "Domain" <*> text "Service")
  | "dashboard" => some (.dashboard <$> RecordReader.dashboard)
  | "conf-base-root" => some (.confRoot <$> confKind dialect <*> baseScope)
  | "conf-base" => some (.confObject <$> confKind dialect <*> baseScope <*> text "Name")
  | "conf-override-root" => some (.confRoot <$> confKind dialect <*> overrideScope)
  | "conf-override" =>
    some (.confObject <$> confKind dialect <*> overrideScope <*> text "Name")
  | _ => none

end Entry

end Coordination
