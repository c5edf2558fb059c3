import Coordination.Number.Shortest
import Coordination.Text.Numeral

/-!
# Number literals

Numbers as documents write them: a sign, digits without superfluous zeros, a fraction and
a power of ten. An integer literal between -2^63 and 2^64 is exact; every other literal is a
binary64 number. That number is computed from the digits that fit into 64 bits and one
product or quotient with a rounded power of ten, so it can differ in the last place from the
nearest one; a literal beyond the finite range is refused.
-/

namespace Coordination

/-- A number of a document. -/
inductive Number where
  | int (n : Int)
  | double (x : Number.Binary64)
  deriving DecidableEq, Repr, Inhabited

namespace Number

/-- The text of a number. -/
def toText : Number → String
  | .int n => toString n
  | .double x => x.toText

/-- The greatest integer of 64 bits. -/
def maxWord : Nat := twoTo 64 - 1

/-- The greatest power of ten that has a rounded value in the format. -/
def maxPower : Nat := 308

/-- A digit sequence and what follows it. -/
def takeDigits : List Char → List Nat × List Char
  | [] => ([], [])
  | c :: rest =>
    match Text.digitValue? c with
    | some d => let (ds, after) := takeDigits rest; (d :: ds, after)
    | none => ([], c :: rest)

/-- The digits that can follow `n` within 64 bits, added to it, and the number of the
others. -/
def accumulate (n : Nat) : List Nat → Nat × Nat
  | [] => (n, 0)
  | d :: ds =>
    if 10 * n + d ≤ maxWord then accumulate (10 * n + d) ds else (n, ds.length + 1)

/-- The rounded value of `x * 10 ^ power`. The steps bound how often the greatest power of
ten is divided off. -/
def scale (x : Magnitude) (power : Int) : Nat → Option Magnitude
  | 0 => none
  | steps + 1 =>
    if power.natAbs ≤ maxPower then
      (Magnitude.ofNat? (tenTo power.natAbs)).bind fun p =>
        if 0 ≤ power then x.mul? p else x.div? p
    else if x.significand = 0 then some x
    else if 0 ≤ power then none
    else
      (Magnitude.ofNat? (tenTo maxPower)).bind fun p =>
        (x.div? p).bind fun y => scale y (power + maxPower) steps

/-- The binary64 number of a significand and a power of ten. After four divisions by the
greatest power of ten every significand of 64 bits is zero. -/
def ofParts (negative : Bool) (significand : Nat) (power : Int) : Option Number :=
  (Magnitude.ofNat? significand).bind fun x =>
    (scale x power 5).map fun y => .double ⟨negative, y⟩

/-- The exponent part of a literal, after its mark. The greatest exponent that counts has 31
bits; a larger one makes zero of a negative power and nothing of a positive one. -/
def readExponent (negative : Bool) (significand : Nat) (power : Int) (s : List Char) :
    Option (Number × List Char) :=
  let (up, s) := match s with
    | '+' :: rest => (true, rest)
    | '-' :: rest => (false, rest)
    | s => (true, s)
  match takeDigits s with
  | ([], _) => none
  | (ds, rest) =>
    let n : Nat := ds.foldl (fun n d => 10 * n + d) 0
    if n < twoTo 31 then
      let total := if up then power + n else power - n
      (ofParts negative significand total).map (·, rest)
    else if significand = 0 ∨ !up then some (.double ⟨negative, .zero⟩, rest)
    else none

/-- The rest of a literal after its digits before and after the point. -/
def readTail (negative : Bool) (significand : Nat) (power : Int) :
    List Char → Option (Number × List Char)
  | 'e' :: rest => readExponent negative significand power rest
  | 'E' :: rest => readExponent negative significand power rest
  | rest => (ofParts negative significand power).map (·, rest)

/-- The literal after its sign. -/
def readUnsigned (negative : Bool) (s : List Char) : Option (Number × List Char) :=
  match takeDigits s with
  | ([], _) => none
  | (0 :: _ :: _, _) => none
  | (ds, rest) =>
    let (whole, dropped) := accumulate 0 ds
    match rest with
    | '.' :: rest =>
      match takeDigits rest with
      | ([], _) => none
      | (fraction, rest) =>
        let (n, ignored) := accumulate whole fraction
        readTail negative n ((dropped : Int) - (fraction.length - ignored)) rest
    | 'e' :: _ => readTail negative whole dropped rest
    | 'E' :: _ => readTail negative whole dropped rest
    | rest =>
      if dropped = 0 ∧ (!negative ∨ (whole ≠ 0 ∧ whole ≤ twoTo 63)) then
        some (.int (if negative then -(whole : Int) else whole), rest)
      else (ofParts negative whole dropped).map (·, rest)

/-- The literal that a text starts with, and what follows it. -/
def read : List Char → Option (Number × List Char)
  | '-' :: rest => readUnsigned true rest
  | s => readUnsigned false s

end Number

end Coordination
