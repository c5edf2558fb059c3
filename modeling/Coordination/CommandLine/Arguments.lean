import Coordination.Text.Split

/-!
# Arguments

The commands of the operator's tool and how they are written. An option takes its value
from behind an equals sign or from the next argument, which must not look like an option.
After two hyphens everything is an operand.
-/

namespace Coordination.CommandLine

/-- What the tool is asked to do. -/
inductive Command where
  /-- Derive the path and the payload of an entry given by its fields. -/
  | keys (template : String) (fields : List String) (config : Option String)
  /-- List the templates. -/
  | templates (config : Option String)
  /-- Check a configuration. -/
  | check (config : String)
  | help
  deriving DecidableEq, Repr, Inhabited

/-- The arguments that a command accepts. -/
structure Accepted where
  field : Bool
  config : Bool
  /-- The number of operands. -/
  operands : Nat
  /-- Whether an operand may be empty. -/
  emptyOperand : Bool

/-- What the arguments of a command say. -/
structure Given where
  operands : List String
  fields : List String
  config : Option String
  help : Bool
  deriving DecidableEq, Repr, Inhabited

/-- Whether an argument looks like an option. A hyphen alone does not. -/
def looksLikeOption (arg : String) : Bool := arg.toList.head? = some '-' && arg ≠ "-"

/-- The name and the value of an option with an equals sign. -/
def splitOption (arg : String) : String × Option String :=
  match Text.splitFirst '=' arg.toList with
  | some (name, value) => (String.ofList name, some (String.ofList value))
  | none => (arg, none)

namespace Given

/-- Take an option with its value, if the command accepts it. A configuration is given once
at most, and its path is not empty. -/
def setOption (accepted : Accepted) (name value : String) (g : Given) : Option Given :=
  if name = "--field" ∧ accepted.field then some { g with fields := g.fields ++ [value] }
  else if name = "--config" ∧ accepted.config ∧ g.config = none ∧ value ≠ "" then
    some { g with config := some value }
  else none

/-- Take an operand, if the command accepts one more. -/
def addOperand (accepted : Accepted) (operand : String) (g : Given) : Option Given :=
  if g.operands.length < accepted.operands ∧ (accepted.emptyOperand ∨ operand ≠ "") then
    some { g with operands := g.operands ++ [operand] }
  else none

/-- Read the arguments of a command after those already read. What is wrong before help is
asked for is an error; what comes after it is not read. -/
def readFrom (accepted : Accepted) (g : Given) : List String → Option Given
  | [] => some g
  | arg :: rest =>
    if arg = "--" then rest.foldlM (fun g operand => g.addOperand accepted operand) g
    else if arg = "-h" ∨ arg = "--help" then some { g with help := true }
    else if looksLikeOption arg then
      match splitOption arg, rest with
      | (name, some value), rest =>
        (g.setOption accepted name value).bind fun g => readFrom accepted g rest
      | (name, none), value :: rest =>
        if looksLikeOption value then none
        else (g.setOption accepted name value).bind fun g => readFrom accepted g rest
      | (_, none), [] => none
    else (g.addOperand accepted arg).bind fun g => readFrom accepted g rest

end Given

/-- Read the arguments of a command. -/
def readGiven (accepted : Accepted) (args : List String) : Option Given :=
  Given.readFrom accepted ⟨[], [], none, false⟩ args

/-- The command that the arguments of a command stand for, or help if they ask for it. -/
def orHelp (command : Given → Option Command) (g : Given) : Option Command :=
  if g.help then some .help else command g

/-- The names of the commands. -/
def commandNames : List String := ["keys", "templates", "check", "help"]

/-- The command that arguments stand for, if they are well-formed. -/
def Command.parse? : List String → Option Command
  | "keys" :: args =>
    (readGiven ⟨true, true, 1, true⟩ args).bind <| orHelp fun g =>
      match g.operands with
      | [template] => some (.keys template g.fields g.config)
      | _ => none
  | "templates" :: args =>
    (readGiven ⟨false, true, 0, true⟩ args).bind <| orHelp fun g =>
      match g.operands with
      | [] => some (.templates g.config)
      | _ => none
  | "check" :: args =>
    (readGiven ⟨false, false, 1, false⟩ args).bind <| orHelp fun g =>
      match g.operands with
      | [config] => some (.check config)
      | _ => none
  | ["help"] => some .help
  | ["help", name] => if commandNames.contains name then some .help else none
  | "--help" :: _ => some .help
  | "-h" :: _ => some .help
  | _ => none

/-- The path of the configuration that a command needs. -/
def Command.config? : Command → Option String
  | .keys _ _ config => config
  | .templates config => config
  | .check config => some config
  | .help => none

end Coordination.CommandLine
