import Coordination.CommandLine.Arguments
import Coordination.Reload.Rule
import Coordination.Text.Quoted

/-!
# Running the operator's tool

What the tool prints and the status that it ends with: zero if all went well, one after an
error, which goes to the error output together with its cause, and two if the arguments are
not well-formed.
-/

namespace Coordination.CommandLine

/-- An error of the tool. -/
inductive Failure where
  | config (e : ConfigError)
  /-- A field without an equals sign. -/
  | field (text : String)
  | derivation (template : String) (e : TemplateError)
  | validating (path : String) (e : ConfigError)
  deriving Inhabited

namespace Failure

/-- The wording of the error. -/
def message : Failure → String
  | .config e => e.message
  | .field text => s!"field {Text.quoted text} is not NAME=VALUE"
  | .derivation template _ => s!"deriving {template}"
  | .validating path _ => s!"validating {path}"

/-- The wording of what caused the error. -/
def cause? : Failure → Option String
  | .config e => e.cause?
  | .field _ => none
  | .derivation _ e => some e.message
  | .validating _ e => some e.message

/-- A text whose lines are indented. -/
def indented (s : String) : String :=
  String.ofList ("    ".toList ++ s.toList.flatMap fun c =>
    if c = '\n' then "\n    ".toList else [c])

/-- What is printed for the error. -/
def report (f : Failure) : String :=
  let cause := match f.cause? with
    | some cause => "\n\nCaused by:\n" ++ indented cause
    | none => ""
  s!"Error: {f.message}{cause}\n"

end Failure

/-- What a run of the tool leaves behind. -/
structure Result where
  status : Nat
  output : String
  errors : String
  deriving DecidableEq, Repr, Inhabited

/-- The lines of a text that is printed. -/
def lines (ls : List String) : String := String.join (ls.map (· ++ "\n"))

/-- The configuration at a path. -/
def loadConfig (readText : String → Except IoError String) (path : String) :
    Except Failure Config :=
  (Config.load readText path).mapError .config

/-- The standard templates, with those of a configuration if there is one. -/
def loadTemplates (readText : String → Except IoError String) :
    Option String → Except Failure TemplateSet
  | none => .ok .standard
  | some path => do
    let config ← loadConfig readText path
    config.keyTemplates.mapError .config

/-- The name and the value of a field. -/
def parseField (text : String) : Except Failure (String × Data) :=
  match Text.splitFirst '=' text.toList with
  | some (name, value) => .ok (String.ofList name, .text (String.ofList value))
  | none => .error (.field text)

/-- The fields of an entry. Of two with one name the later counts. -/
def parseFields (texts : List String) : Except Failure Data := do
  let fields ← texts.mapM parseField
  .ok (.table (Data.sortFields fields))

/-- The fields that a template reads: those of the path as they occur, and then those that
only the payload has. -/
def fieldsRead (t : KeyTemplate) : List String :=
  t.value.fields.foldl (fun fields field =>
    if fields.contains field then fields else fields ++ [field]) t.key.fields

/-- The line that describes a template. -/
def describe (t : KeyTemplate) : String := t.name ++ ": " ++ ", ".intercalate (fieldsRead t)

/-- The line that describes a rule. -/
def describeRule (r : ReloadRule) : String :=
  let tier := match r.scope.tier with
    | .base => "Base"
    | .override => "Override"
  let command := if r.command = [] then "" else ", with command"
  s!"  {r.watch} -> {r.output} (template {r.template}, {tier} tier{command})"

/-- The text that explains the commands. -/
def usage : String :=
  lines ["keys TEMPLATE [--field NAME=VALUE]... [--config PATH]", "templates [--config PATH]",
    "check CONFIG"]

/-- What a command prints. -/
def print (readText : String → Except IoError String) : Command → Except Failure String
  | .keys template fields config => do
    let templates ← loadTemplates readText config
    let entry ← parseFields fields
    let (key, value) ← (templates.deriveFields template entry).mapError (.derivation template)
    .ok (lines [key, value])
  | .templates config => do
    let templates ← loadTemplates readText config
    .ok (lines (templates.toList.map describe))
  | .check path => do
    let config ← loadConfig readText path
    let rules ← config.rules.mapError (.validating path)
    let templates := config.templates.size
    let head :=
      s!"{path}: {templates} template override(s), {rules.length} reload rule(s)"
    .ok (lines (head :: rules.map describeRule))
  | .help => .ok usage

/-- Run the tool. -/
def run (readText : String → Except IoError String) (args : List String) : Result :=
  match Command.parse? args with
  | none => ⟨2, "", usage⟩
  | some command =>
    match print readText command with
    | .ok output => ⟨0, output, ""⟩
    | .error e => ⟨1, "", e.report⟩

end Coordination.CommandLine
