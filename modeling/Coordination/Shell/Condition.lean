import Coordination.Files.Change
import Coordination.Shell.Octets

/-!
# Conditions

The language of `test`: primaries about texts, integers and files, negation, conjunctions
that bind closer than disjunctions, and parentheses. Whether a word is an operator depends
on the words behind it: one that could be an operand of the next operator is an operand. With
three words, one in the middle that stands between operands decides.
-/

namespace Coordination.Shell

namespace Condition

/-- How an operator is used. -/
inductive Usage where
  /-- Before an operand. -/
  | before
  /-- Between two operands. -/
  | between
  /-- With conditions. -/
  | logical
  deriving DecidableEq, Repr, Inhabited

/-- The operators before an operand. -/
def unary : List String :=
  ["-r", "-w", "-x", "-e", "-f", "-d", "-c", "-b", "-p", "-u", "-g", "-k", "-s", "-t", "-z",
    "-n", "-h", "-O", "-G", "-L", "-S"]

/-- The operators between two operands. -/
def binary : List String :=
  ["=", "!=", "<", ">", "-eq", "-ne", "-ge", "-gt", "-le", "-lt", "-nt", "-ot", "-ef"]

/-- The operators of conditions. -/
def logical : List String := ["!", "-a", "-o", "(", ")"]

/-- How a word is used if it is an operator. -/
def usage? (word : String) : Option Usage :=
  if unary.contains word then some .before
  else if binary.contains word then some .between
  else if logical.contains word then some .logical
  else none

/-- What the first of some words is. -/
inductive Role where
  | nothing
  | operand
  | operator (usage : Usage) (word : String)
  deriving DecidableEq, Repr, Inhabited

/-- What the first of some words is. -/
def role : List String → Role
  | [] => .nothing
  | word :: rest =>
    match usage? word with
    | none => .operand
    | some usage =>
      let isOperand : Bool := match rest with
        | [] => usage = .before || word = "("
        | [_] => false
        | next :: _ :: _ => usage = .before && usage? next = some .between
      if isOperand then .operand else .operator usage word

/-- What conditions are seen from. -/
structure View where
  files : Files
  place : Place

/-- Whether a condition about a file holds. -/
def aboutFile (v : View) (operator path : String) : Bool :=
  match v.files.find v.place (toText path) with
  | .error _ => false
  | .ok (place, item) =>
    let mode := v.files.mode place
    match operator with
    | "-f" => match item with
      | .file _ => true
      | .program _ => true
      | _ => false
    | "-d" => item = .directory
    | "-c" => match item with
      | .device _ => true
      | _ => false
    | "-s" => match item with
      | .directory => true
      | .program _ => true
      | item => item.content ≠ []
    | "-x" => item = .directory || mode &&& 0o111 ≠ 0
    | "-u" => mode &&& 0o4000 ≠ 0
    | "-g" => mode &&& 0o2000 ≠ 0
    | "-k" => mode &&& 0o1000 ≠ 0
    | "-b" => false
    | "-p" => false
    | "-h" => false
    | "-L" => false
    | "-S" => false
    | _ => true

/-- The integer that an operand spells. -/
def integer (s : String) : Except String Int :=
  match decimalInteger? s with
  | some n => .ok n
  | none => .error ("Illegal number: " ++ s)

/-- Whether a condition with an operator before an operand holds. -/
def holdsBefore (v : View) (operator operand : String) : Except String Bool :=
  match operator with
  | "-z" => .ok (operand = "")
  | "-n" => .ok (operand ≠ "")
  | "-t" => (integer operand).map fun _ => false
  | operator => .ok (aboutFile v operator operand)

/-- Whether a condition with an operator between two operands holds. -/
def holdsBetween (v : View) (a operator b : String) : Except String Bool := do
  let compareWith (holds : Int → Int → Bool) : Except String Bool := do
    return holds (← integer a) (← integer b)
  match operator with
  | "=" => return a = b
  | "!=" => return a ≠ b
  | "<" => return a < b
  | ">" => return b < a
  | "-eq" => compareWith fun m n => m = n
  | "-ne" => compareWith fun m n => m ≠ n
  | "-ge" => compareWith fun m n => n ≤ m
  | "-gt" => compareWith fun m n => n < m
  | "-le" => compareWith fun m n => m ≤ n
  | "-lt" => compareWith fun m n => m < n
  | "-ef" =>
    match v.files.find v.place (toText a), v.files.find v.place (toText b) with
    | .ok (p, _), .ok (q, _) => return p = q
    | _, _ => return false
  | _ => return false

/-- An error at a word. -/
def errorAt {α : Type} (word message : String) : Except String α :=
  .error (if word = "" then message else word ++ ": " ++ message)

mutual

/-- A disjunction, and the words from its last one on. -/
def disjunction (v : View) (words : List String) (r : Role) :
    Nat → Except String (Bool × List String)
  | 0 => .error "too long"
  | n + 1 => do
    let (a, words) ← conjunction v words r n
    if role (words.drop 1) = .operator .logical "-o" then
      let next := words.drop 2
      let (b, words) ← disjunction v next (role next) n
      return (a || b, words)
    else return (a, words)
termination_by structural n => n

/-- A conjunction, and the words from its last one on. -/
def conjunction (v : View) (words : List String) (r : Role) :
    Nat → Except String (Bool × List String)
  | 0 => .error "too long"
  | n + 1 => do
    let (a, words) ← negation v words r n
    if role (words.drop 1) = .operator .logical "-a" then
      let next := words.drop 2
      let (b, words) ← conjunction v next (role next) n
      return (a && b, words)
    else return (a, words)
termination_by structural n => n

/-- A condition that may be negated, and the words from its last one on. -/
def negation (v : View) (words : List String) (r : Role) :
    Nat → Except String (Bool × List String)
  | 0 => .error "too long"
  | n + 1 => do
    if r = .operator .logical "!" then
      let next := words.drop 1
      let r := role next
      let (a, words) ← negation v (if r = .nothing then words else next) r n
      return (!a, words)
    else primary v words r n
termination_by structural n => n

/-- A condition without operators of conditions, and the words from its last one on. -/
def primary (v : View) (words : List String) (r : Role) :
    Nat → Except String (Bool × List String)
  | 0 => .error "too long"
  | n + 1 => do
    match r with
    | .nothing => return (false, words)
    | .operator .logical "(" =>
      let next := words.drop 1
      let r := role next
      if r = .operator .logical ")" then return (false, next)
      else
        let (a, words) ← disjunction v next r n
        let words := words.drop 1
        if role words ≠ .operator .logical ")" then .error "closing paren expected"
        else return (a, words)
    | .operator .before operator =>
      match words.drop 1 with
      | [] => errorAt operator "argument expected"
      | operand :: rest => return (← holdsBefore v operator operand, operand :: rest)
    | _ =>
      match words, role (words.drop 1) with
      | a :: _ :: rest, .operator .between operator =>
        match rest with
        | [] => errorAt operator "argument expected"
        | b :: rest => return (← holdsBetween v a operator b, b :: rest)
      | a :: _, _ => return (a ≠ "", words)
      | [], _ => return (false, [])
termination_by structural n => n

end

/-- Evaluate words that start with a word of a role. -/
def evaluate (v : View) (words : List String) (r : Role) : Except String Bool := do
  let (a, rest) ← disjunction v words r (8 * words.length + 16)
  match rest with
  | word :: _ :: _ => errorAt word "unexpected operator"
  | _ => return a

/-- Whether a condition holds, or does not if it is negated. One without words does not. Of
several negations at the start of a short condition only one counts. -/
def holds (v : View) (negated : Bool) (words : List String) : Nat → Except String Bool
  | 0 => .error "too long"
  | n + 1 =>
    let plain (words : List String) : Except String Bool :=
      (evaluate v words (role words)).map (· != negated)
    let wrapped : Except String Bool :=
      if words.head? = some "(" ∧ words.getLast? = some ")" then
        plain (words.drop 1).dropLast
      else if words.head? = some "!" then holds v true (words.drop 1) n
      else plain words
    match words with
    | [] => .ok false
    | [_, operator, _] =>
      if usage? operator = some .between then
        (evaluate v words .operand).map (· != negated)
      else wrapped
    | [_, _, _, _] => wrapped
    | words => plain words

end Condition

/-- The status of `test`, called by a name with arguments, or why it has none. -/
def testStatus (v : Condition.View) (name : String) (args : List String) :
    Except String Nat := do
  let words ← if name = "[" then
      if args.getLast? = some "]" then pure args.dropLast else .error "missing ]"
    else pure args
  return if ← Condition.holds v false words (words.length + 1) then 0 else 1

end Coordination.Shell
