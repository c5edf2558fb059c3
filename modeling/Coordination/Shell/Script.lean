import Coordination.Shell.Octets

/-!
# Scripts

What a script says, once it is read: commands made of words and redirections. A word is a
list of pieces, and each piece knows whether it stands in quotes, because that decides what
happens to it when the word is expanded. Commands remember the line that they stand on for
the messages of the shell.
-/

namespace Coordination.Shell

/-- What is done with the value of a parameter. -/
inductive Operator where
  /-- The value itself. -/
  | value
  /-- The number of its characters. -/
  | length
  /-- The word if there is no value, or no value but the empty one. -/
  | default (orEmpty : Bool)
  /-- The same, and the word becomes the value. -/
  | assign (orEmpty : Bool)
  /-- The same, and the word is an error message. -/
  | require (orEmpty : Bool)
  /-- The word if there is a value, or one that is not empty. -/
  | alternative (orEmpty : Bool)
  /-- The value without a part that the word describes. -/
  | trim (atEnd longest : Bool)
  /-- No operator of the language. -/
  | unknown
  deriving DecidableEq, Repr, Inhabited

/-- How a redirection uses a file. -/
inductive Access where
  | input
  | output
  /-- Output to a file that may be there even if files are protected. -/
  | overwrite
  | append
  | update
  deriving DecidableEq, Repr, Inhabited

mutual

/-- A piece of a word. -/
inductive Piece where
  | char (c : Char) (quoted : Bool)
  /-- A quotation mark. It is no text, but a word with nothing else is there all the same. -/
  | mark
  /-- The value of a parameter. -/
  | parameter (name : String) (operator : Operator) (word : List Piece) (quoted : Bool)
  /-- The output of commands. -/
  | output (script : Command) (quoted : Bool)
  /-- The value of an expression. -/
  | arithmetic (expression : List Piece) (quoted : Bool)

/-- A redirection of a file descriptor. -/
inductive Redirection where
  | file (fd : Nat) (access : Access) (path : List Piece)
  /-- Make the descriptor the same as another one. -/
  | same (fd : Nat) (target : List Piece)
  /-- Input from a document in the script, by its number. -/
  | document (fd : Nat) (number : Nat)

/-- A command. -/
inductive Command where
  /-- Nothing at all. -/
  | nothing
  | simple (line : Nat) (assignments words : List (List Piece))
      (redirections : List Redirection)
  | pipeline (stages : List Command)
  /-- The second only if the first succeeds. -/
  | both (first second : Command)
  /-- The second only if the first fails. -/
  | either (first second : Command)
  | sequence (first second : Command)
  | negation (body : Command)
  /-- Run without waiting for it. -/
  | background (line : Nat) (body : Command) (redirections : List Redirection)
  /-- Run in a shell of its own. -/
  | subshell (line : Nat) (body : Command) (redirections : List Redirection)
  | redirected (line : Nat) (body : Command) (redirections : List Redirection)
  | conditional (condition consequence alternative : Command)
  /-- Repeat the body while the condition succeeds, or until it does. -/
  | loop (untilSuccess : Bool) (condition body : Command)
  /-- Run the body once for each word. -/
  | iteration (line : Nat) (name : String) (words : List (List Piece)) (body : Command)
  /-- Run the first branch that has a pattern for the word. -/
  | selection (line : Nat) (word : List Piece) (branches : List (List (List Piece) × Command))
  /-- Define a function. -/
  | define (line : Nat) (name : String) (body : Command)

end

instance : Inhabited Piece := ⟨.mark⟩

instance : Inhabited Command := ⟨.nothing⟩

/-- A word. -/
abbrev Word := List Piece

/-- The text of a word of which nothing is quoted and nothing is expanded. -/
def plainText? (word : Word) : Option String :=
  (word.mapM fun (p : Piece) =>
    match p with
    | .char c false => some c
    | _ => none).map String.ofList

/-- Whether some part of the word is quoted. -/
def hasQuote (word : Word) : Bool :=
  word.any fun p =>
    match p with
    | .mark => true
    | .char _ quoted => quoted
    | _ => false

/-- The name that a word assigns to, and the pieces of the value. -/
def assignment? (word : Word) : Option (String × Word) :=
  let plain : Piece → Option Char := fun
    | .char c false => some c
    | _ => none
  let name := (word.map plain).takeWhile fun c => c.any inName
  match name.filterMap id, word.drop name.length with
  | c :: rest, .char '=' false :: value =>
    if startsName c then some (String.ofList (c :: rest), value) else none
  | _, _ => none

/-- The commands of the shell that stand above functions: what goes wrong in one of them
ends the shell. -/
def specialBuiltins : List String :=
  [".", ":", "break", "continue", "eval", "exec", "exit", "export", "local", "readonly",
    "return", "set", "shift", "times", "trap", "unset"]

/-- Documents in a script by their numbers. -/
abbrev Documents := List (Nat × Word)

end Coordination.Shell
