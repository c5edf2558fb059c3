import Coordination.CommandLine.Run

/-!
# The operator's tool

Reads the one file that a command may need, runs the command and prints what it left.
-/

namespace Coordination

/-- The error of an access as the tool knows it. -/
def ioErrorOf : IO.Error → IoError
  | .noFileOrDirectory .. => .notFound
  | .inappropriateType .. => .isADirectory
  | .permissionDenied .. => .permissionDenied
  | _ => .invalidInput

/-- The text of a file. -/
def readFileText (path : String) : IO (Except IoError String) := do
  try
    let content ← IO.FS.readBinFile path
    match String.fromUTF8? content with
    | some s => pure (.ok s)
    | none => pure (.error .invalidData)
  catch e => pure (.error (ioErrorOf e))

/-- Run the tool on arguments. -/
def runTool (args : List String) : IO UInt32 := do
  let text ← match (CommandLine.Command.parse? args).bind (·.config?) with
    | some path => readFileText path
    | none => pure (.error .notFound)
  let result := CommandLine.run (fun _ => text) args
  (← IO.getStdout).putStr result.output
  (← IO.getStderr).putStr result.errors
  pure (UInt32.ofNat result.status)

end Coordination

def main (args : List String) : IO UInt32 := Coordination.runTool args
