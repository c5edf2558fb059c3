import Coordination.Registry.Configuration
import Coordination.Registry.Environment
import Coordination.Reload.Rule
import Coordination.Shell.Run
import Coordination.Text.Blank
import Coordination.Tree.Service

/-!
# Reload cycles

A cycle renders the template of a rule with the release's environment, writes the result
to the output and runs the command. Each stage can fail, and then the later ones do not
happen: nothing is written before all is rendered, and nothing is run before all is
written. Rendering only reads the tree.
-/

namespace Coordination

/-- Why a cycle or the installation of its watch fails. -/
inductive ReloadError where
  | noRule (key : String)
  | registry (e : RegistryError)
  | render (template : String) (source : TemplateError)
  | write (path : String) (e : IoError)
  | spawn (line : String) (e : IoError)
  | command (line : String) (ending : Shell.Ending) (errors : String)
  | watch (key : String) (source : TreeError)
  deriving Inhabited

namespace ReloadError

/-- How the end of a command is described. -/
def describe : Shell.Ending → String
  | .exited status => s!"exit status: {status}"
  | .killed signal => s!"signal: {Shell.Signal.label signal}"
  | .late => "nothing"

/-- The wording of the error. -/
def message : ReloadError → String
  | .noRule key => "no reload rule registered for " ++ key
  | .registry e => e.message
  | .render template source => s!"rendering {template} failed: {source.message}"
  | .write path e => s!"writing {path} failed: {e.message}"
  | .spawn line e => s!"running {line} failed: {e.message}"
  | .command line ending errors => s!"{line} exited with {describe ending}: {errors}"
  | .watch key source => s!"installing watch on {key} failed: {source.message}"

end ReloadError

/-- What a cycle did. -/
structure ReloadOutcome where
  output : String
  /-- The number of bytes written. -/
  bytes : Nat
  commandRan : Bool
  deriving DecidableEq, Repr, Inhabited

/-- The service that a cycle reads, and the files that it writes. -/
structure Workspace where
  service : Service
  files : Files

namespace ReloadRule

/-- The values that a template can use. -/
def context (rule : ReloadRule) (env : Env) : Data :=
  .table [("Domain", .text rule.env.domain), ("Service", .text rule.env.service),
    ("Version", .text rule.env.version), ("Env", .texts env.toList)]

/-- The environment of the rule's release; it has no variables if there is none. -/
def readEnv (rule : ReloadRule) (r : Registry) : Action Env :=
  tryCatch ((r.getEnv rule.env).map Prod.fst) fun e =>
    match e with
    | .notFound _ => pure .empty
    | e => throw e

/-- Read what the rule renders: the template and the environment. -/
def readSources (rule : ReloadRule) (r : Registry) : Action (String × Env) := do
  let object ← r.getConf rule.kind rule.scope rule.template
  let env ← rule.readEnv r
  pure (object.text, env)

/-- Render a template with an environment. -/
def renderText (rule : ReloadRule) (source : String) (env : Env) : Except ReloadError String :=
  match (Template.parse rule.template source).bind fun t => t.render (rule.context env) with
  | .ok s => .ok s
  | .error e => .error (.render rule.template e)

/-- Run the command of the rule, if there is one, and say whether there is. -/
def runCommand (rule : ReloadRule) (files : Files) : Except ReloadError Bool × Files :=
  match rule.command with
  | [] => (.ok false, files)
  | program :: args =>
    let line := " ".intercalate rule.command
    match Shell.run program args files with
    | (.error e, files) => (.error (.spawn line e), files)
    | (.ok exit, files) =>
      if exit.succeeded then (.ok true, files)
      else
        let errors := Text.trim (Text.Utf8.decodeLenient exit.errors).toList
        (.error (.command line exit.ending (String.ofList errors)), files)

/-- Write a rendered text and run the command. -/
def install (rule : ReloadRule) (text : String) (files : Files) :
    Except ReloadError ReloadOutcome × Files :=
  let bytes := Text.Utf8.encode text
  match files.writeWithDirectories rule.output bytes with
  | (.error e, files) => (.error (.write rule.output e), files)
  | (.ok (), files) =>
    match rule.runCommand files with
    | (.error e, files) => (.error e, files)
    | (.ok commandRan, files) => (.ok ⟨rule.output, bytes.length, commandRan⟩, files)

/-- Run a cycle. -/
def cycle (rule : ReloadRule) (r : Registry) (w : Workspace) :
    Except ReloadError ReloadOutcome × Workspace :=
  match w.service.run (rule.readSources r).run with
  | (.error e, service) => (.error (.registry e), { w with service })
  | (.ok (source, env), service) =>
    match rule.renderText source env with
    | .error e => (.error e, { w with service })
    | .ok text =>
      let (result, files) := rule.install text w.files
      (result, ⟨service, files⟩)

end ReloadRule

end Coordination
