import Coordination.Shell.Octets

/-!
# Arithmetic

Expressions over integers of 64 bits, which wrap around. They are evaluated while they are
read, so that an error in a value is found before an error behind it. A part whose value
does not matter is only read. A name stands for the integer that its value spells, or for
zero if it has no value; assignments are collected for the shell to carry out.
-/

namespace Coordination.Shell

namespace Arithmetic

/-- The operators between two operands. -/
inductive Operation where
  | multiply | divide | remainder | add | subtract
  | shiftLeft | shiftRight
  | less | lessEqual | greater | greaterEqual | equal | unequal
  | bitAnd | bitXor | bitOr
  deriving DecidableEq, Repr, Inhabited

namespace Operation

/-- How closely an operator binds, from the closest on. -/
def level : Operation → Nat
  | .multiply | .divide | .remainder => 0
  | .add | .subtract => 1
  | .shiftLeft | .shiftRight => 2
  | .less | .lessEqual | .greater | .greaterEqual => 3
  | .equal | .unequal => 4
  | .bitAnd => 5
  | .bitXor => 6
  | .bitOr => 7

/-- The operators by how they are written, the longer before the shorter. -/
def written : List (String × Operation) :=
  [("<<", .shiftLeft), (">>", .shiftRight), ("<=", .lessEqual), (">=", .greaterEqual),
    ("==", .equal), ("!=", .unequal), ("*", .multiply), ("/", .divide), ("%", .remainder),
    ("+", .add), ("-", .subtract), ("<", .less), (">", .greater), ("&", .bitAnd),
    ("^", .bitXor), ("|", .bitOr)]

/-- The operators that an assignment can be joined with. -/
def joins : Operation → Bool
  | .less | .lessEqual | .greater | .greaterEqual | .equal | .unequal => false
  | _ => true

/-- The value of an operation. There is none for a division by zero. -/
def apply (o : Operation) (a b : Int64) : Option Int64 :=
  let truth (p : Bool) : Option Int64 := some (if p then 1 else 0)
  match o with
  | .multiply => some (a * b)
  | .divide => if b = 0 then none else some (a / b)
  | .remainder => if b = 0 then none else some (a % b)
  | .add => some (a + b)
  | .subtract => some (a - b)
  | .shiftLeft => some (a <<< b)
  | .shiftRight => some (a >>> b)
  | .less => truth (a < b)
  | .lessEqual => truth (a ≤ b)
  | .greater => truth (b < a)
  | .greaterEqual => truth (b ≤ a)
  | .equal => truth (a = b)
  | .unequal => truth (a ≠ b)
  | .bitAnd => some (a &&& b)
  | .bitXor => some (a ^^^ b)
  | .bitOr => some (a ||| b)

end Operation

/-- A token of an expression. -/
inductive Symbol where
  | ended
  | number (n : Int64)
  | name (s : String)
  | operation (o : Operation)
  | assign (o : Option Operation)
  | and | or | not | complement | open_ | close | question | colon
  | bad
  deriving DecidableEq, Repr, Inhabited

/-- Why an expression has no value. -/
inductive Failure where
  /-- The expression is not well-formed, or divides by zero. -/
  | malformed (reason : String)
  /-- A value is no integer. -/
  | notInteger (value : String)
  /-- A parameter has no value where one is demanded. -/
  | unset (name : String)
  deriving DecidableEq, Repr, Inhabited

/-- The largest and the smallest integer. -/
def largest : Nat := 9223372036854775807

/-- The integer nearest to a number. -/
def saturate (negative : Bool) (n : Nat) : Int64 :=
  if negative then Int64.ofInt (-(min n (largest + 1)))
  else Int64.ofInt (min n largest)

/-- The integer that a value spells, with blanks around it, if it is one of 64 bits. -/
def integer? (value : String) : Option Int64 :=
  let s := value.toList.dropWhile isSpace
  let (negative, digits) := match s with
    | '-' :: rest => (true, rest)
    | '+' :: rest => (false, rest)
    | s => (false, s)
  match digits with
  | [] => if s.isEmpty then some 0 else none
  | c :: _ =>
    if isDigit c then
      let (n, rest) := readNatural digits
      let fits := n ≤ (if negative then largest + 1 else largest)
      if fits && rest.all isSpace then some (saturate negative n) else none
    else none

/-- An expression while it is read. -/
structure State where
  rest : List Char
  /-- The token at hand. -/
  token : Symbol
  /-- The values of names. -/
  value : String → Option String
  /-- Whether names must have values. -/
  strict : Bool
  assigned : List (String × Int64)

/-- Reading and evaluating an expression. -/
abbrev Reckoning := StateT State (Except Failure)

/-- Fail for a reason. -/
def fail {α : Type} (reason : String) : Reckoning α := throw (.malformed reason)

/-- The first token of a text, and what follows it. -/
def nextSymbol : List Char → Symbol × List Char
  | [] => (.ended, [])
  | c :: rest =>
    if isWhite c then nextSymbol rest
    else if isDigit c then
      let (n, rest) := readNatural (c :: rest)
      (.number (saturate false n), rest)
    else if startsName c then
      let s := c :: rest
      (.name (String.ofList (s.takeWhile inName)), s.dropWhile inName)
    else
      match c, rest with
      | '(', rest => (.open_, rest)
      | ')', rest => (.close, rest)
      | '?', rest => (.question, rest)
      | ':', rest => (.colon, rest)
      | '~', rest => (.complement, rest)
      | '&', '&' :: rest => (.and, rest)
      | '|', '|' :: rest => (.or, rest)
      | '!', '=' :: rest => (.operation .unequal, rest)
      | '!', rest => (.not, rest)
      | '=', '=' :: rest => (.operation .equal, rest)
      | '=', rest => (.assign none, rest)
      | c, rest =>
        let found := Operation.written.findSome? fun (text, o) =>
          (afterText text.toList (c :: rest)).map fun rest => (o, rest)
        match found with
        | none => (.bad, rest)
        | some (o, '=' :: rest) =>
          if o.joins then (.assign (some o), rest) else (.operation o, '=' :: rest)
        | some (o, rest) => (.operation o, rest)
where
  /-- The white space of expressions. -/
  isWhite (c : Char) : Bool := c = ' ' || c = '\t' || c = '\n'
  /-- What follows a text. -/
  afterText : List Char → List Char → Option (List Char)
    | [], s => some s
    | c :: text, d :: s => if c = d then afterText text s else none
    | _ :: _, [] => none

/-- Go on to the next token. -/
def advance : Reckoning Unit :=
  modify fun s =>
    let (token, rest) := nextSymbol s.rest
    { s with token, rest }

/-- The integer that a name stands for. -/
def valueOf (name : String) : Reckoning Int64 := do
  let s ← get
  match s.assigned.lookup name with
  | some n => return n
  | none =>
    match s.value name with
    | none => if s.strict then throw (.unset name) else return 0
    | some value =>
      match integer? value with
      | some n => return n
      | none => throw (.notInteger value)

/-- The value of an operation. -/
def operate (o : Operation) (a b : Int64) : Reckoning Int64 :=
  match o.apply a b with
  | some n => return n
  | none => fail "division by zero"

/-- One for truth and zero for falsehood. -/
def ofTruth (p : Bool) : Int64 := if p then 1 else 0

mutual

/-- An operand. The flag says that its value does not matter. -/
def operand (idle : Bool) : Nat → Reckoning Int64
  | 0 => fail "expecting primary"
  | n + 1 => do
    match (← get).token with
    | .open_ =>
      advance
      let value ← assignment idle n
      if (← get).token ≠ .close then fail "expecting ')'"
      advance
      return value
    | .number value => do
      advance
      return value
    | .name name =>
      advance
      if idle then return 0 else valueOf name
    | .operation .add =>
      advance
      operand idle n
    | .operation .subtract =>
      advance
      return -(← operand idle n)
    | .not =>
      advance
      return ofTruth ((← operand idle n) = 0)
    | .complement =>
      advance
      return ~~~(← operand idle n)
    | _ => fail "expecting primary"
termination_by structural n => n

/-- Operations on a first operand, as long as they bind closer than a level. -/
def operations (idle : Bool) (level : Nat) (a : Int64) : Nat → Reckoning Int64
  | 0 => fail "expecting primary"
  | n + 1 => do
    match (← get).token with
    | .operation o =>
      if o.level < level then do
        advance
        let b ← operand idle n
        let b ← operations idle o.level b n
        let value ← if idle then pure b else operate o a b
        operations idle level value n
      else return a
    | _ => return a
termination_by structural n => n

/-- Operations that must all be true. -/
def conjunction (idle : Bool) : Nat → Reckoning Int64
  | 0 => fail "expecting primary"
  | n + 1 => do
    let a ← operand idle n
    let a ← operations idle 8 a n
    match (← get).token with
    | .and =>
      advance
      let b ← conjunction (idle || a = 0) n
      return ofTruth (a ≠ 0 && b ≠ 0)
    | _ => return a
termination_by structural n => n

/-- Operations of which one must be true. -/
def disjunction (idle : Bool) : Nat → Reckoning Int64
  | 0 => fail "expecting primary"
  | n + 1 => do
    let a ← conjunction idle n
    match (← get).token with
    | .or =>
      advance
      let b ← disjunction (idle || a ≠ 0) n
      return ofTruth (a ≠ 0 || b ≠ 0)
    | _ => return a
termination_by structural n => n

/-- A choice between two values. -/
def choice (idle : Bool) : Nat → Reckoning Int64
  | 0 => fail "expecting primary"
  | n + 1 => do
    let a ← disjunction idle n
    match (← get).token with
    | .question =>
      advance
      let b ← assignment (idle || a = 0) n
      if (← get).token ≠ .colon then fail "expecting ':'"
      advance
      let c ← choice (idle || a ≠ 0) n
      return if a ≠ 0 then b else c
    | _ => return a
termination_by structural n => n

/-- An assignment to a name, or a choice. -/
def assignment (idle : Bool) : Nat → Reckoning Int64
  | 0 => fail "expecting primary"
  | n + 1 => do
    let s ← get
    match s.token, nextSymbol s.rest with
    | .name name, (.assign o, rest) =>
      set { s with rest }
      advance
      let value ← assignment idle n
      if idle then return value
      else do
        let value ← match o with
          | some o => operate o (← valueOf name) value
          | none => pure value
        modify fun s => { s with assigned := (name, value) :: s.assigned }
        return value
    | _, _ => choice idle n
termination_by structural n => n

end

/-- The value of an expression, and the values that it assigns to names, the last one
first. -/
def evaluate (value : String → Option String) (strict : Bool) (text : String) :
    Except Failure (Int64 × List (String × Int64)) := do
  let s := text.toList
  let start : State := ⟨s, .ended, value, strict, []⟩
  let steps := 16 * (s.length + 4)
  let reckoning : Reckoning Int64 := do
    advance
    let n ← assignment false steps
    if (← get).token ≠ .ended then fail "expecting EOF"
    return n
  let (n, s) ← reckoning.run start
  return (n, s.assigned)

end Arithmetic

end Coordination.Shell
