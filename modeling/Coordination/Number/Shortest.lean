import Coordination.Number.Binary64

/-!
# Shortest decimal digits

The decimal number with the fewest digits that rounds to a given binary64 number, and
among those the nearest to it. All comparisons are of exact natural numbers. The layout of
the digits as text is a separate decision, made by `Binary64.toText`.
-/

namespace Coordination.Number

/-- A decimal number `digits * 10 ^ exponent`. -/
structure Decimal where
  digits : Nat
  exponent : Int
  deriving DecidableEq, Repr, Inhabited

namespace Decimal

/-- Compare a decimal number with `n / d`. -/
def compareRatio (x : Decimal) (n d : Nat) : Ordering :=
  if 0 ≤ x.exponent then compare (x.digits * tenTo x.exponent.toNat * d) n
  else compare (x.digits * d) (n * tenTo (-x.exponent).toNat)

/-- Drop final zeros from the digits. -/
def strip (x : Decimal) : Decimal :=
  let reversed := (Nat.toDigits 10 x.digits).reverse
  let zeros := (reversed.takeWhile (· = '0')).length
  ⟨x.digits / tenTo zeros, x.exponent + zeros⟩

end Decimal

/-- The power of ten at the first digit of `n / d`, for a quotient of at least `10 ^ -400`. -/
def leadingPower (n d : Nat) : Int :=
  ((Nat.toDigits 10 (n * tenTo 400 / d)).length : Int) - 401

namespace Magnitude

/-- Four times the distance, in units of the last place, down to the middle between this
number and the one before it: the numbers below a power of two lie closer. -/
def gapBelow (x : Magnitude) : Nat :=
  if x.significand = twoTo 52 ∧ minExponent < x.exponent then 1 else 2

/-- Whether a decimal number rounds to `x`. -/
def readsBack (x : Magnitude) (c : Decimal) : Bool :=
  let (lowN, lowD) := inUnits (4 * x.significand - x.gapBelow) 4 (-x.exponent)
  let (highN, highD) := inUnits (4 * x.significand + 2) 4 (-x.exponent)
  let low := c.compareRatio lowN lowD
  let high := c.compareRatio highN highD
  if x.significand % 2 = 0 then low.isGE && high.isLE else low.isGT && high.isLT

/-- The better of the two neighbours of `x` with `count` digits, if one of them rounds
to `x`. -/
def atDigits (x : Magnitude) (count : Nat) : Option Decimal :=
  let (n, d) := x.toRatio
  let power := leadingPower n d - count + 1
  let below := if 0 ≤ power then n / (d * tenTo power.toNat) else n * tenTo (-power).toNat / d
  let lower : Decimal := ⟨below, power⟩
  let upper : Decimal := ⟨below + 1, power⟩
  match x.readsBack lower, x.readsBack upper with
  | true, true =>
    match (⟨2 * below + 1, power⟩ : Decimal).compareRatio (2 * n) d with
    | .lt => some upper
    | .gt => some lower
    | .eq => some (if below % 2 = 0 then lower else upper)
  | true, false => some lower
  | false, true => some upper
  | false, false => none

/-- The decimal number with the fewest digits that rounds to `x`, without final zeros. -/
def shortest (x : Magnitude) : Decimal :=
  if x.significand = 0 then ⟨0, 0⟩
  else ((((List.range 17).map (· + 1)).findSome? x.atDigits).getD ⟨0, 0⟩).strip

end Magnitude

/-- How the digits of a number are laid out. -/
structure Layout where
  /-- The least power of the first digit that is written with a leading `0.`. -/
  minPower : Int
  /-- The greatest power of the first digit that is written without an exponent. -/
  maxPower : Int

namespace Layout

/-- Digits with a point after the first `whole` of them, and at least one after it. -/
def positional (digits : List Char) (power : Int) : List Char :=
  if power < 0 then
    ['0', '.'] ++ List.replicate (-power - 1).toNat '0' ++ digits
  else
    let whole := power.toNat + 1
    let padded := digits ++ List.replicate (whole - digits.length) '0'
    let fraction := padded.drop whole
    padded.take whole ++ ['.'] ++ (if fraction = [] then ['0'] else fraction)

/-- One digit, a point before further ones, and the power of ten with its sign. -/
def exponential (digits : List Char) (power : Int) : List Char :=
  let fraction := digits.drop 1
  let sign := if power < 0 then '-' else '+'
  digits.take 1 ++ (if fraction = [] then [] else '.' :: fraction) ++
    ['e', sign] ++ Nat.toDigits 10 power.natAbs

/-- The text of a decimal number. -/
def write (layout : Layout) (x : Decimal) : List Char :=
  let digits := Nat.toDigits 10 x.digits
  let power := x.exponent + digits.length - 1
  if layout.minPower ≤ power ∧ power ≤ layout.maxPower then positional digits power
  else exponential digits power

end Layout

namespace Binary64

/-- Numbers from `1e-5` up to, not including, `1e16` are written without an exponent. -/
def layout : Layout := ⟨-5, 15⟩

/-- The shortest text that reads back as the number. -/
def toText (x : Binary64) : String :=
  String.ofList ((if x.negative then ['-'] else []) ++ layout.write x.magnitude.shortest)

end Binary64

end Coordination.Number
