import Coordination.Data.Toml.Document
import Coordination.Files.Basic
import Coordination.Namespace.Standard
import Coordination.Tree.Path

/-!
# Reload rules and their configuration

A reload rule says which path to watch, which environment and which template object to
render, where to write the result, and which command to run then. Rules come from a
configuration document, together with templates that replace standard ones. A
configuration is valid if its templates compile and no rule lacks a part that it needs;
whether a watched path can be watched is not part of that.
-/

namespace Coordination

/-- What to do when the watched path changes. -/
structure ReloadRule where
  watch : String
  /-- The release whose environment the template is rendered with. -/
  env : ReleaseId
  kind : ConfKind
  scope : Scope
  /-- The name of the object that holds the template. -/
  template : String
  output : String
  /-- A program and its arguments; nothing is run if there is no program. -/
  command : List String
  deriving DecidableEq, Repr, Inhabited

/-- A rule as a configuration states it. -/
structure RuleConfig where
  watch : String
  domain : String
  service : String
  version : String
  template : String
  kind : ConfKind
  domainClass : String
  /-- The instance through whose override tier the template is read. -/
  domainInstance : Option String
  output : String
  command : List String
  deriving DecidableEq, Repr, Inhabited

/-- What a rule lacks. -/
inductive RuleFault where
  | emptyWatch
  | relativeWatch (watch : String)
  | emptyTemplate
  | emptyOutput
  | emptyProgram
  deriving DecidableEq, Repr, Inhabited

namespace RuleFault

/-- The wording of the fault. -/
def message : RuleFault → String
  | .emptyWatch => "watch path is empty"
  | .relativeWatch watch => s!"watch path {watch} is not absolute"
  | .emptyTemplate => "template name is empty"
  | .emptyOutput => "output path is empty"
  | .emptyProgram => "command program is empty"

end RuleFault

namespace RuleConfig

/-- How a rule is read. -/
def reader (dialect : Dialect) : RecordReader RuleConfig :=
  RuleConfig.mk <$> .text "watch" <*> .text "domain" <*> .text "service" <*> .text "version"
    <*> .text "template" <*> .optional "kind" (Data.readConfKind dialect) .config
    <*> .text "domain_class" <*> .optional "domain_instance" Data.readOptionalText none
    <*> .text "output" <*> .optional "command" Data.readTexts []

/-- Read a rule. Fields that a rule does not have are errors. -/
def read (dialect : Dialect) (d : Data) : Except ReadError RuleConfig :=
  (reader dialect).read dialect true d

/-- The rule as a document value. -/
def toData (c : RuleConfig) : Data :=
  .table [("watch", .text c.watch), ("domain", .text c.domain), ("service", .text c.service),
    ("version", .text c.version), ("template", .text c.template), ("kind", .text c.kind.name),
    ("domain_class", .text c.domainClass),
    ("domain_instance", match c.domainInstance with
      | some s => .text s
      | none => .null),
    ("output", .text c.output), ("command", .list (c.command.map .text))]

/-- The first fault of a rule. -/
def fault? (c : RuleConfig) : Option RuleFault :=
  if c.watch = "" then some .emptyWatch
  else if !Path.startsWith "/" c.watch then some (.relativeWatch c.watch)
  else if c.template = "" then some .emptyTemplate
  else if c.output = "" then some .emptyOutput
  else if c.command.head? = some "" then some .emptyProgram
  else none

/-- Where the template of the rule is read. -/
def scope (c : RuleConfig) : Scope :=
  match c.domainInstance with
  | some domainInstance => .override c.domainClass domainInstance c.service c.version
  | none => .base c.domainClass c.service

/-- The rule that is stated. -/
def toRule (c : RuleConfig) : ReloadRule where
  watch := c.watch
  env := ⟨c.domain, c.service, c.version⟩
  kind := c.kind
  scope := c.scope
  template := c.template
  output := c.output
  command := c.command

end RuleConfig

/-- A configuration: templates by name, and rules. -/
structure Config where
  templates : OrderedMap String
  reload : List RuleConfig
  deriving DecidableEq

/-- Why a configuration cannot be loaded or is not valid. -/
inductive ConfigError where
  | io (path : String) (e : IoError)
  | parse (e : ReadError)
  | invalidRule (index : Nat) (watch : String) (fault : RuleFault)
  | template (e : TemplateError)
  deriving Inhabited

namespace ConfigError

/-- The wording of the error. -/
def message : ConfigError → String
  | .io path e => s!"reading {path}: {e.message}"
  | .parse e => "parsing config: " ++ (e.message?.getD "not a configuration")
  | .invalidRule index watch fault => s!"reload rule {index} ({watch}): {fault.message}"
  | .template e => e.message

/-- The wording of what caused the error, if that is another error. -/
def cause? : ConfigError → Option String
  | .io _ e => some e.message
  | .parse e => e.message?
  | .invalidRule .. => none
  | .template _ => none

end ConfigError

namespace Config

/-- How a configuration is read. -/
def reader (dialect : Dialect) : RecordReader Config :=
  Config.mk <$> .optional "templates" (Data.readTextMap dialect) .empty
    <*> .optional "reload" readRules []
where
  /-- A list of rules. -/
  readRules : Data → Except ReadError (List RuleConfig)
    | .list items => items.mapM (RuleConfig.read dialect)
    | _ => .error .malformed

/-- Read a configuration. Fields that it does not have are passed over. -/
def read (dialect : Dialect) (d : Data) : Except ReadError Config :=
  (reader dialect).read dialect false d

/-- The configuration of a TOML text. -/
def parse (s : String) : Except ConfigError Config :=
  match Data.ofToml? s with
  | none => .error (.parse .malformed)
  | some d =>
    match read .toml d with
    | .ok c => .ok c
    | .error e => .error (.parse e)

/-- The configuration at a path, where `readText` finds the texts. -/
def load (readText : String → Except IoError String) (path : String) :
    Except ConfigError Config :=
  match readText path with
  | .ok s => parse s
  | .error e => .error (.io path e)

/-- The configuration as a document value. -/
def toData (c : Config) : Data :=
  .table [("templates", .texts c.templates.toList),
    ("reload", .list (c.reload.map RuleConfig.toData))]

/-- The standard templates with those of the configuration. -/
def keyTemplates (c : Config) : Except ConfigError TemplateSet :=
  match TemplateSet.withOverrides c.templates with
  | .ok set => .ok set
  | .error e => .error (.template e)

/-- Fail at the first rule that has a fault, counted from `index`. -/
def checkRules (index : Nat) : List RuleConfig → Except ConfigError Unit
  | [] => .ok ()
  | r :: rest =>
    match r.fault? with
    | some fault => .error (.invalidRule index r.watch fault)
    | none => checkRules (index + 1) rest

/-- Fail unless the templates compile and no rule has a fault. -/
def validate (c : Config) : Except ConfigError Unit := do
  let _ ← c.keyTemplates
  checkRules 0 c.reload

/-- The rules of a valid configuration. -/
def rules (c : Config) : Except ConfigError (List ReloadRule) := do
  c.validate
  .ok (c.reload.map RuleConfig.toRule)

end Config

end Coordination
