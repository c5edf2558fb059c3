import Coordination.Shell.Source
import Coordination.Text.Split

/-!
# Reading scripts

The grammar of scripts, by recursive descent. A script is read one line of commands at a
time, because a line is run before the next one is read; an error on a later line does not
undo what earlier lines did.

Words are read piece by piece. What a character means depends on where it stands: outside
of quotes, between double quotes, in the braces of a parameter, in an expression, or in a
document. Every function takes the number of steps that it may use; each step reads a
character or goes down one level of the grammar.
-/

namespace Coordination.Shell

/-- Which words of a command are special when a token is read. -/
structure Lookout where
  /-- Line ends are skipped. -/
  lines : Bool
  /-- Reserved words are recognized. -/
  reserved : Bool
  /-- Aliases are replaced. -/
  aliases : Bool

namespace Lookout

/-- Nothing is special. -/
def none : Lookout := ⟨false, false, false⟩

/-- Where a command may start on a line. -/
def command : Lookout := ⟨false, true, true⟩

/-- Where a command may start on this line or a later one. -/
def anyLine : Lookout := ⟨true, true, true⟩

/-- Where only an alias is special. -/
def onlyAliases : Lookout := ⟨false, false, true⟩

/-- Where a reserved word is special, on this line or a later one. -/
def onlyReserved : Lookout := ⟨true, true, false⟩

end Lookout

/-- The reserved words. -/
def reservedWords : List String :=
  ["!", "case", "do", "done", "elif", "else", "esac", "fi", "for", "if", "in", "then",
    "until", "while", "\x7b", "\x7d"]

/-- The symbols that end a list of commands. -/
def listEnds : List String :=
  [")", ";;", "do", "done", "elif", "else", "esac", "fi", "then", "\x7d"]

/-- Whether a token ends a list of commands. -/
def endsList : Token → Bool
  | .ended => true
  | .symbol s => listEnds.contains s
  | _ => false

/-- Where a list of commands stands. -/
inductive ListKind where
  /-- One line of the script. -/
  | line
  /-- A part of a command, which is not empty. -/
  | part
  /-- A part of a command that may be empty. -/
  | optional
  deriving DecidableEq

/-- Where a character stands that is in no quotes. -/
inductive Outside where
  | word
  /-- Between the braces of a parameter. -/
  | braces
  /-- In a pattern between the braces of a parameter in a document, where quotes quote no
  values. -/
  | documentBraces
  /-- In the word that ends a document, where nothing is expanded. -/
  | ending
  deriving DecidableEq

/-- Whether a closing brace ends the word. -/
def Outside.isBraced (place : Outside) : Bool := place = .braces || place = .documentBraces

/-- Where a character stands that is quoted by what is around it. -/
inductive Inside where
  /-- Between double quotes. -/
  | quotes
  /-- Between double quotes that stand between braces. -/
  | quotesInBraces
  /-- Between double quotes in a pattern in a document. -/
  | quotesInDocument
  /-- Between the braces of a parameter that stands in quotes. -/
  | braces
  /-- In a document, up to the end of a line. -/
  | document
  deriving DecidableEq

/-- Whether a double quote ends the text. -/
def Inside.isQuoted (place : Inside) : Bool :=
  place = .quotes || place = .quotesInBraces || place = .quotesInDocument

/-- What is around an expansion. -/
inductive Around where
  | nothing
  | quotes
  | document
  deriving DecidableEq

/-- What is around the expansions in a text. -/
def Inside.around : Inside → Around
  | .document => .document
  | .quotesInDocument => .nothing
  | _ => .quotes

/-- The grave accent, which stands around commands. -/
def grave : Char := Char.ofNat 0x60

/-- The parameters that have a special character for a name. -/
def isSpecialParameter (c : Char) : Bool :=
  c = '!' || c = '#' || c = '$' || c = '*' || c = '-' || c = '?' || c = '@'

/-- Whether a character ends a word that is in no quotes. -/
def endsWord (c : Char) : Bool :=
  isBlank c || c = '\n' || c = ';' || c = '&' || c = '|' || c = '<' || c = '>' || c = '(' ||
    c = ')'

/-- Whether a backslash inside quotes makes the character stand for itself. -/
def escapedInside (place : Inside) (c : Char) : Bool :=
  c = '\\' || c = grave || c = '$' || (c = '"' && place ≠ .document) ||
    (c = '\x7d' && place ≠ .quotes && place ≠ .document)

/-- The command of a list, when another one follows. -/
def Command.andThen (first second : Command) : Command :=
  match first with
  | .nothing => second
  | first => .sequence first second

/-- The command with redirections behind it. They replace those of a process of its own. -/
def Command.withRedirections (line : Nat) (redirections : List Redirection) :
    Command → Command
  | .subshell inner body _ => .subshell inner body redirections
  | body => .redirected line body redirections

/-- The command, to be run without waiting for it. -/
def Command.inBackground : Command → Command
  | .redirected line body redirections => .background line body redirections
  | body => .background 0 body []

/-- The symbol of an operator that is written with one character or with two. -/
def doubled (c : Char) : Reading Token := do
  if ← Reading.accept c then return .symbol (String.ofList [c, c])
  else return .symbol (String.singleton c)

/-- Which redirection starts with the character. -/
def readArrow (c : Char) : Reading Arrow := do
  if c = '>' then
    if ← Reading.accept '>' then return .file .append
    else if ← Reading.accept '|' then return .file .overwrite
    else if ← Reading.accept '&' then return .same
    else return .file .output
  else if ← Reading.accept '<' then return .document (← Reading.accept '-')
  else if ← Reading.accept '&' then return .same
  else if ← Reading.accept '>' then return .file .update
  else return .file .input

/-- The characters up to a single quote. -/
def singleQuoted : Nat → Reading Word
  | 0 => return []
  | n + 1 => do
    match (← get).rest.head? with
    | none => Reading.fail "Unterminated quoted string"
    | some c =>
      Reading.skip
      if c = '\'' then return []
      else return .char c true :: (← singleQuoted n)

/-- The text up to the end of a comment. -/
def skipComment : Reading Unit :=
  modify fun s => { s with rest := s.rest.dropWhile (· ≠ '\n') }

/-- The text of commands between grave accents, with the backslashes removed that protect
characters from being the end. -/
def graveText (quoted : Bool) : Nat → Reading (List Char)
  | 0 => return []
  | n + 1 => do
    match ← Reading.peek with
    | none => Reading.fail "EOF in backquote substitution"
    | some c =>
      Reading.skip
      if c = grave then return []
      else if c = '\\' then do
        match (← get).rest.head? with
        | none => return '\\' :: (← graveText quoted n)
        | some d =>
          Reading.skip
          if d = '\\' ∨ d = grave ∨ d = '$' ∨ (quoted ∧ d = '"') then
            return d :: (← graveText quoted n)
          else return '\\' :: d :: (← graveText quoted n)
      else return c :: (← graveText quoted n)

/-- The operator behind a parameter in braces, once its name is read. -/
def readOperator : Reading Operator := do
  match ← Reading.peek with
  | none => return .unknown
  | some c =>
    Reading.skip
    let orEmpty := c = ':'
    let sign ← if orEmpty then do
        let sign ← Reading.peek
        Reading.skip
        pure sign
      else pure (some c)
    match sign with
    | some '-' => return .default orEmpty
    | some '=' => return .assign orEmpty
    | some '?' => return .require orEmpty
    | some '+' => return .alternative orEmpty
    | some '\x7d' => return if orEmpty then .unknown else .value
    | some '#' => if orEmpty then return .unknown else return .trim false (← Reading.accept '#')
    | some '%' => if orEmpty then return .unknown else return .trim true (← Reading.accept '%')
    | _ => return .unknown

/-- The name of a parameter in braces, and whether its length is meant. There is no name if
none of the language stands there. -/
def bracedName (n : Nat) : Reading (Option String × Bool) := do
  let named : Reading (Option String) := do
    match ← Reading.peek with
    | some c =>
      if startsName c then return some (String.ofList (← Reading.takeRun inName n))
      else if isDigit c then return some (String.ofList (← Reading.takeRun isDigit n))
      else return none
    | none => return none
  match ← named with
  | some name => return (some name, false)
  | none =>
    match ← Reading.peek with
    | none => return (none, false)
    | some '\x7d' => return (none, false)
    | some '#' =>
      Reading.skip
      match ← named with
      | some name => return (some name, true)
      | none =>
        match ← Reading.peek with
        | some c =>
          if isSpecialParameter c then do
            let before ← get
            Reading.skip
            if (← Reading.peek) = some '\x7d' then return (some (String.singleton c), true)
            else do
              set before
              return (some "#", false)
          else return (some "#", false)
        | none => return (some "#", false)
    | some c =>
      if isSpecialParameter c then do
        Reading.skip
        return (some (String.singleton c), false)
      else do
        Reading.skip
        return (none, false)

/-- What ends a document: the characters of a word, whatever is quoted. -/
def endingOf (word : Word) : List Char :=
  word.filterMap fun
    | .char c _ => some c
    | _ => none

/-- Whether the lines to come start with the line that ends a document, and what is behind
it. -/
def afterEnding? (ending rest : List Char) : Option (List Char) :=
  (Text.afterStart ending rest).bind fun
    | [] => some []
    | '\n' :: rest => some rest
    | _ => none

/-- The lines of a document whose text is taken as it is. -/
def verbatimLines (a : Awaited) : Nat → Reading Word
  | 0 => return []
  | n + 1 => do
    if a.indented then
      modify fun s => { s with rest := s.rest.dropWhile (· = '\t') }
    let s ← get
    match afterEnding? a.ending s.rest, s.rest with
    | some rest, _ =>
      set { s with rest, line := s.line + 1 }
      return []
    | none, [] => return []
    | none, _ =>
      let text := s.rest.takeWhile (· ≠ '\n')
      set { s with rest := (s.rest.drop text.length).drop 1, line := s.line + 1 }
      let newline : Word := if text.length < s.rest.length then [.char '\n' true] else []
      return text.map (.char · true) ++ newline ++ (← verbatimLines a n)

/-- The parameter that stands for all arguments, each in quotes of its own. -/
def allArguments : Word := [.mark, .parameter "@" .value [] true, .mark]

mutual

/-- The pieces of a word that is in no quotes. -/
def outside (place : Outside) : Nat → Reading Word
  | 0 => Reading.fail "too long"
  | n + 1 => do
    match ← Reading.peek with
    | none => if place.isBraced then Reading.fail "Missing '\x7d'" else return []
    | some c =>
      if !place.isBraced ∧ endsWord c then return []
      else do
        Reading.skip
        if c = '\x7d' ∧ place.isBraced then return []
        else if c = '\\' then
          match (← get).rest.head? with
          | none => return [.char '\\' true]
          | some d =>
            Reading.skip
            return .char d true :: (← outside place n)
        else if c = '\'' then do
          let text ← singleQuoted ((← get).rest.length + 1)
          return .mark :: text ++ .mark :: (← outside place n)
        else if c = '"' then do
          let text ← inside (match place with
            | .braces => .quotesInBraces
            | .documentBraces => .quotesInDocument
            | _ => .quotes) n
          return .mark :: text ++ .mark :: (← outside place n)
        else if c = '$' ∧ place ≠ .ending then do
          let piece ← dollar .nothing n
          return piece ++ (← outside place n)
        else if c = grave ∧ place ≠ .ending then do
          let piece ← graveCommand false n
          return piece :: (← outside place n)
        else return .char c false :: (← outside place n)
termination_by structural n => n

/-- The pieces that are quoted by what is around them. -/
def inside (place : Inside) : Nat → Reading Word
  | 0 => Reading.fail "too long"
  | n + 1 => do
    match ← Reading.peek with
    | none =>
      if place = .document then return [] else Reading.fail "Unterminated quoted string"
    | some c =>
      Reading.skip
      if c = '"' ∧ place.isQuoted then return []
      else if c = '"' ∧ place = .braces then do
        let text ← inside .quotesInBraces n
        return .mark :: text ++ .mark :: (← inside place n)
      else if c = '\x7d' ∧ place = .braces then return []
      else if c = '\n' ∧ place = .document then return [.char '\n' true]
      else if c = '\\' then
        match (← get).rest.head? with
        | none => return [.char '\\' true]
        | some d =>
          Reading.skip
          let escaped : Word :=
            if escapedInside place d then [.char d true] else [.char '\\' true, .char d true]
          return escaped ++ (← inside place n)
      else if c = '$' then do
        let piece ← dollar place.around n
        return piece ++ (← inside place n)
      else if c = grave then do
        let piece ← graveCommand true n
        return piece :: (← inside place n)
      else return .char c true :: (← inside place n)
termination_by structural n => n

/-- What a dollar sign starts, once it is read. -/
def dollar (around : Around) : Nat → Reading Word
  | 0 => Reading.fail "too long"
  | n + 1 => do
    let quoted := around ≠ .nothing
    match ← Reading.peek with
    | some '(' =>
      Reading.skip
      if ← Reading.accept '(' then return [.arithmetic (← expression 0 n) quoted]
      else do
        let outer := (← get).awaited
        modify fun s => { s with awaited := [] }
        let script ← list .optional n
        let t ← readToken .none n
        if !t.isSymbol ")" then Reading.expecting t (.symbol ")")
        modify fun s => { s with awaited := outer }
        return [.output (script.getD .nothing) quoted]
    | some '\x7b' =>
      Reading.skip
      return [← braced around n]
    | some c =>
      if startsName c then do
        let name ← Reading.takeRun inName ((← get).rest.length + 1)
        return [.parameter (String.ofList name) .value [] quoted]
      else if isDigit c ∨ isSpecialParameter c then do
        Reading.skip
        return [.parameter (String.singleton c) .value [] quoted]
      else return [.char '$' quoted]
    | none => return [.char '$' quoted]
termination_by structural n => n

/-- A parameter in braces, once the opening one is read. -/
def braced (around : Around) : Nat → Reading Piece
  | 0 => Reading.fail "too long"
  | n + 1 => do
    let quoted := around ≠ .nothing
    let (name, wantsLength) ← bracedName ((← get).rest.length + 1)
    let rest := if quoted then inside .braces n else outside .braces n
    match name with
    | none => return .parameter "" .unknown (← rest) quoted
    | some name =>
      if wantsLength then
        if ← Reading.accept '\x7d' then return .parameter name .length [] quoted
        else return .parameter name .unknown (← rest) quoted
      else
        match ← readOperator with
        | .value => return .parameter name .value [] quoted
        | .trim atEnd longest =>
          let place : Outside := if around = .document then .documentBraces else .braces
          return .parameter name (.trim atEnd longest) (← outside place n) quoted
        | operator => return .parameter name operator (← rest) quoted
termination_by structural n => n

/-- An expression up to its two closing parentheses, inside of some that are open. -/
def expression (opened : Nat) : Nat → Reading Word
  | 0 => Reading.fail "too long"
  | n + 1 => do
    match ← Reading.peek with
    | none => Reading.fail "Missing '))'"
    | some c =>
      Reading.skip
      if c = '(' then return .char c true :: (← expression (opened + 1) n)
      else if c = ')' ∧ opened = 0 then
        if ← Reading.accept ')' then return []
        else return .char c true :: (← expression 0 n)
      else if c = ')' then return .char c true :: (← expression (opened - 1) n)
      else if c = '\\' then
        match (← get).rest.head? with
        | none => return [.char '\\' true]
        | some d =>
          Reading.skip
          let escaped : Word :=
            if escapedInside .quotes d then [.char d true] else [.char '\\' true, .char d true]
          return escaped ++ (← expression opened n)
      else if c = '$' then do
        let piece ← dollar .quotes n
        return piece ++ (← expression opened n)
      else if c = grave then do
        let piece ← graveCommand true n
        return piece :: (← expression opened n)
      else return .char c true :: (← expression opened n)
termination_by structural n => n

/-- Commands between grave accents, once the opening one is read. -/
def graveCommand (quoted : Bool) : Nat → Reading Piece
  | 0 => Reading.fail "too long"
  | n + 1 => do
    let text ← graveText quoted ((← get).rest.length + 1)
    let script ← Reading.within text (list .optional n)
    return .output (script.getD .nothing) quoted
termination_by structural n => n

/-- The lines of a document in which parameters are expanded. A line may start behind
joined ones; a join behind tabs that are dropped is text. -/
def documentLines (a : Awaited) : Nat → Reading Word
  | 0 => Reading.fail "too long"
  | n + 1 => do
    let start := (← Reading.peek)
    let drops := a.indented && start = some '\t'
    if drops then
      modify fun s => { s with rest := s.rest.dropWhile (· = '\t') }
    let s ← get
    match afterEnding? a.ending s.rest, s.rest with
    | some rest, _ =>
      set { s with rest, line := s.line + 1 }
      return []
    | none, [] => return []
    | none, '\\' :: '\n' :: rest => do
      set { s with rest, line := s.line + 1 }
      let text ← inside .document n
      return .char '\\' true :: .char '\n' true :: (text ++ (← documentLines a n))
    | none, _ =>
      let text ← inside .document n
      return text ++ (← documentLines a n)
termination_by structural n => n

/-- The texts of documents, in the order of their redirections. -/
def readDocuments : List Awaited → Nat → Reading Unit
  | _, 0 => Reading.fail "too long"
  | [], _ + 1 => return ()
  | a :: rest, n + 1 => do
    let text ← if a.verbatim then verbatimLines a ((← get).rest.length + 1)
      else documentLines a n
    modify fun s => { s with documents := (a.number, text) :: s.documents }
    readDocuments rest n
termination_by structural _ n => n

/-- The texts of all documents that are awaited. -/
def settleDocuments : Nat → Reading Unit
  | 0 => Reading.fail "too long"
  | n + 1 => do
    let awaited := (← get).awaited
    modify fun s => { s with awaited := [] }
    readDocuments awaited n
termination_by structural n => n

/-- A token that is no word of the language yet. -/
def scan (place : Outside) : Nat → Reading Token
  | 0 => Reading.fail "too long"
  | n + 1 => do
    match ← Reading.peek with
    | none => return .ended
    | some c =>
      if isBlank c then do Reading.skip; scan place n
      else if c = '#' then do skipComment; scan place n
      else if c = '\n' then do Reading.skip; return .newline
      else if c = '&' ∨ c = '|' ∨ c = ';' then do Reading.skip; doubled c
      else if c = '(' ∨ c = ')' then do Reading.skip; return .symbol (String.singleton c)
      else do
        let word ← outside place n
        match word, ← Reading.peek with
        | [], some c => do
          Reading.skip
          return .redirection (if c = '>' then 1 else 0) (← readArrow c)
        | [.char d false], some c =>
          if isDigit d ∧ (c = '<' ∨ c = '>') then do
            Reading.skip
            return .redirection (d.toNat - '0'.toNat) (← readArrow c)
          else return .word word
        | word, _ => return .word word
termination_by structural n => n

/-- A token, as it is understood where it stands. -/
def readToken (lookout : Lookout) : Nat → Reading Token
  | 0 => Reading.fail "too long"
  | n + 1 => do
    let (t, goesOn) ← match (← get).pushed with
      | some t =>
        modify fun s => { s with pushed := none }
        pure (t, false)
      | none =>
        modify Source.forgetAliases
        let t ← scan .word n
        pure (t, (← get).goesOn)
    match t with
    | .newline =>
      if lookout.lines then do
        settleDocuments n
        readToken lookout n
      else return t
    | .word word =>
      match if hasQuote word then none else plainText? word with
      | none => return t
      | some text =>
        if lookout.reserved ∧ reservedWords.contains text then return .symbol text
        else if lookout.aliases ∨ goesOn then
          let s ← get
          match s.aliases.get? text with
          | some replacement =>
            if s.isSubstituting text then return t
            else do
              Reading.substitute text replacement
              readToken lookout n
          | none => return t
        else return t
    | t => return t
termination_by structural n => n

/-- The word of a redirection. -/
def readRedirection (fd : Nat) (arrow : Arrow) : Nat → Reading Redirection
  | 0 => Reading.fail "too long"
  | n + 1 => do
    let t ← scan (match arrow with
      | .document _ => .ending
      | _ => .word) n
    match t, arrow with
    | .word word, .file access => return .file fd access word
    | .word word, .same => return .same fd word
    | .word word, .document indented =>
      let number := (← get).next
      modify fun s => { s with
        next := number + 1
        awaited := s.awaited ++ [⟨number, endingOf word, hasQuote word, indented⟩] }
      return .document fd number
    | t, _ => Reading.unexpected t
termination_by structural n => n

/-- The redirections behind a command. -/
def trailingRedirections : Nat → Reading (List Redirection)
  | 0 => Reading.fail "too long"
  | n + 1 => do
    match ← readToken .command n with
    | .redirection fd arrow =>
      let first ← readRedirection fd arrow n
      return first :: (← trailingRedirections n)
    | t => do
      Reading.push t
      return []
termination_by structural n => n

/-- A list of commands. There is none where a line of the script would start and the script
ends. -/
def list (kind : ListKind) : Nat → Reading (Option Command)
  | 0 => Reading.fail "too long"
  | n + 1 => listFrom kind .nothing true n
termination_by structural n => n

/-- A list of commands behind those already read. -/
def listFrom (kind : ListKind) (before : Command) (first : Bool) :
    Nat → Reading (Option Command)
  | 0 => Reading.fail "too long"
  | n + 1 => do
    match ← readToken ⟨kind ≠ .line, true, true⟩ n with
    | .newline => do
      settleDocuments n
      return some before
    | .ended => do
      settleDocuments n
      Reading.push .ended
      return if first ∧ kind = .line then none else some before
    | t => do
      Reading.push t
      if (kind = .optional ∨ (kind = .part ∧ !first)) ∧ endsList t then return some before
      else do
        let command ← connected n
        match ← readToken .none n with
        | .symbol "&" => listFrom kind (before.andThen command.inBackground) false n
        | .symbol ";" => listFrom kind (before.andThen command) false n
        | .newline => do
          Reading.push .newline
          listFrom kind (before.andThen command) false n
        | .ended => do
          Reading.push .ended
          listFrom kind (before.andThen command) false n
        | t =>
          if kind = .line then Reading.unexpected t
          else do
            Reading.push t
            return some (before.andThen command)
termination_by structural n => n

/-- Pipelines between which it depends on the first whether the second is run. -/
def connected : Nat → Reading Command
  | 0 => Reading.fail "too long"
  | n + 1 => do
    let first ← pipeline .command n
    connectedFrom first n
termination_by structural n => n

/-- What is connected to a command. -/
def connectedFrom (first : Command) : Nat → Reading Command
  | 0 => Reading.fail "too long"
  | n + 1 => do
    match ← readToken .none n with
    | .symbol "&&" => connectedFrom (.both first (← pipeline .anyLine n)) n
    | .symbol "||" => connectedFrom (.either first (← pipeline .anyLine n)) n
    | t => do
      Reading.push t
      return first
termination_by structural n => n

/-- A pipeline, which may be negated. -/
def pipeline (lookout : Lookout) : Nat → Reading Command
  | 0 => Reading.fail "too long"
  | n + 1 => do
    let t ← readToken lookout n
    let negated := t.isSymbol "!"
    if !negated then Reading.push t
    let first ← command .command n
    let body ← match ← readToken .none n with
      | .symbol "|" => do
        let rest ← stages n
        pure (.pipeline (first :: rest))
      | t => do
        Reading.push t
        pure first
    return if negated then .negation body else body
termination_by structural n => n

/-- The stages of a pipeline behind the first. -/
def stages : Nat → Reading (List Command)
  | 0 => Reading.fail "too long"
  | n + 1 => do
    let stage ← command .anyLine n
    match ← readToken .none n with
    | .symbol "|" => return stage :: (← stages n)
    | t => do
      Reading.push t
      return [stage]
termination_by structural n => n

/-- A part of a command up to a symbol. -/
def part (ending : String) : Nat → Reading Command
  | 0 => Reading.fail "too long"
  | n + 1 => do
    let body ← list .part n
    let t ← readToken .none n
    if !t.isSymbol ending then Reading.expecting t (.symbol ending)
    return body.getD .nothing
termination_by structural n => n

/-- A conditional, once the first word is read. -/
def conditional : Nat → Reading Command
  | 0 => Reading.fail "too long"
  | n + 1 => do
    let condition ← part "then" n
    let consequence := (← list .part n).getD .nothing
    match ← readToken .none n with
    | .symbol "elif" => return .conditional condition consequence (← conditional n)
    | .symbol "else" => return .conditional condition consequence (← part "fi" n)
    | t =>
      if !t.isSymbol "fi" then Reading.expecting t (.symbol "fi")
      return .conditional condition consequence .nothing
termination_by structural n => n

/-- The words of a line, and the token behind them. -/
def wordsOfLine : Nat → Reading (List Word × Token)
  | 0 => Reading.fail "too long"
  | n + 1 => do
    match ← readToken .none n with
    | .word word =>
      let (rest, t) ← wordsOfLine n
      return (word :: rest, t)
    | t => return ([], t)
termination_by structural n => n

/-- An iteration, once the first word is read. -/
def iteration (line : Nat) : Nat → Reading Command
  | 0 => Reading.fail "too long"
  | n + 1 => do
    let name ← match ← readToken .none n with
      | .word word => pure (if hasQuote word then none else plainText? word)
      | _ => pure none
    match name.filter isName with
    | none => Reading.fail "Bad for loop variable"
    | some name =>
      let words ← match ← readToken .anyLine n with
        | .symbol "in" => do
          let (words, t) ← wordsOfLine n
          match t with
          | .newline => pure words
          | .symbol ";" => pure words
          | t => Reading.unexpected t
        | .symbol ";" => pure [allArguments]
        | t => do
          Reading.push t
          pure [allArguments]
      let t ← readToken .anyLine n
      if !t.isSymbol "do" then Reading.expecting t (.symbol "do")
      return .iteration line name words (← part "done" n)
termination_by structural n => n

/-- The patterns of a branch, of which the first is read. -/
def patterns (first : Token) : Nat → Reading (List Word)
  | 0 => Reading.fail "too long"
  | n + 1 => do
    let pattern ← match first with
      | .word word => pure word
      | .symbol s => pure (s.toList.map (.char · false))
      | t => Reading.expecting t (.word [])
    match ← readToken .none n with
    | .symbol "|" => return pattern :: (← patterns (← readToken .none n) n)
    | t =>
      if !t.isSymbol ")" then Reading.expecting t (.symbol ")")
      return [pattern]
termination_by structural n => n

/-- The branches of a selection. -/
def branches : Nat → Reading (List (List Word × Command))
  | 0 => Reading.fail "too long"
  | n + 1 => do
    match ← readToken .onlyReserved n with
    | .symbol "esac" => return []
    | t => do
      let first ← if t.isSymbol "(" then readToken .none n else pure t
      let ps ← patterns first n
      let body := (← list .optional n).getD .nothing
      match ← readToken .onlyReserved n with
      | .symbol "esac" => return [(ps, body)]
      | .symbol ";;" => return (ps, body) :: (← branches n)
      | t => Reading.expecting t (.symbol ";;")
termination_by structural n => n

/-- A selection, once the first word is read. -/
def selection (line : Nat) : Nat → Reading Command
  | 0 => Reading.fail "too long"
  | n + 1 => do
    match ← readToken .none n with
    | .word word =>
      let t ← readToken .anyLine n
      if !t.isSymbol "in" then Reading.expecting t (.symbol "in")
      return .selection line word (← branches n)
    | t => Reading.expecting t (.word [])
termination_by structural n => n

/-- A command. -/
def command (lookout : Lookout) : Nat → Reading Command
  | 0 => Reading.fail "too long"
  | n + 1 => do
    let line ← Reading.line
    let compound (body : Command) : Reading Command := do
      match ← trailingRedirections n with
      | [] => return body
      | redirections => return body.withRedirections line redirections
    match ← readToken lookout n with
    | .symbol "if" => compound (← conditional n)
    | .symbol "while" => do
      let condition ← part "do" n
      compound (.loop false condition (← part "done" n))
    | .symbol "until" => do
      let condition ← part "do" n
      compound (.loop true condition (← part "done" n))
    | .symbol "for" => compound (← iteration line n)
    | .symbol "case" => compound (← selection line n)
    | .symbol "(" => do
      let body ← part ")" n
      return .subshell line body (← trailingRedirections n)
    | .symbol "\x7b" => compound (← part "\x7d" n)
    | .word word => do
      Reading.push (.word word)
      simple (← Reading.line) n
    | .redirection fd arrow => do
      Reading.push (.redirection fd arrow)
      simple (← Reading.line) n
    | t => Reading.unexpected t
termination_by structural n => n

/-- A simple command, or the definition of a function. -/
def simple (line : Nat) : Nat → Reading Command
  | 0 => Reading.fail "too long"
  | n + 1 => simpleFrom line [] [] [] n
termination_by structural n => n

/-- A simple command behind the parts already read, which are in reverse order. -/
def simpleFrom (line : Nat) (assignments words : List Word)
    (redirections : List Redirection) : Nat → Reading Command
  | 0 => Reading.fail "too long"
  | n + 1 => do
    match ← readToken (if words.isEmpty then .onlyAliases else .none) n with
    | .word word =>
      if words.isEmpty ∧ (assignment? word).isSome then
        simpleFrom line (word :: assignments) words redirections n
      else simpleFrom line assignments (word :: words) redirections n
    | .redirection fd arrow => do
      let redirection ← readRedirection fd arrow n
      simpleFrom line assignments words (redirection :: redirections) n
    | .symbol "(" =>
      match words, assignments, redirections with
      | [word], [], [] => functionOf word n
      | _, _, _ => do
        Reading.push (.symbol "(")
        return .simple line assignments.reverse words.reverse redirections.reverse
    | t => do
      Reading.push t
      return .simple line assignments.reverse words.reverse redirections.reverse
termination_by structural n => n

/-- The definition of a function, once the opening parenthesis is read. -/
def functionOf (word : Word) : Nat → Reading Command
  | 0 => Reading.fail "too long"
  | n + 1 => do
    let t ← readToken .none n
    if !t.isSymbol ")" then Reading.expecting t (.symbol ")")
    match (if hasQuote word then none else plainText? word).filter isName with
    | none => Reading.fail "Bad function name"
    | some name =>
      if specialBuiltins.contains name then Reading.fail "Bad function name"
      else do
        let line ← Reading.line
        return .define line name (← command .anyLine n)
termination_by structural n => n

end

/-- The next line of commands of a source, and the source behind it. There is none at the
end of the source. -/
def readLine (s : Source) : Except SyntaxError (Option Command × Source) :=
  let steps := 12 * (s.rest.length + 20)
  (list .line steps).run s

end Coordination.Shell
