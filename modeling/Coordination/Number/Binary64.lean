/-!
# Binary64 numbers

The finite numbers of the IEEE 754 format with 53 significant bits, as exact pairs of a
significand and a power of two. Products and quotients are computed exactly on natural
numbers and rounded once, to the nearest number of the format and to an even significand
in the middle. Infinities and NaNs are no values here: an operation that leaves the finite
range answers `none`.
-/

namespace Coordination.Number

/-- The absolute value `significand * 2 ^ exponent` of a binary64 number. -/
structure Magnitude where
  significand : Nat
  exponent : Int
  deriving DecidableEq, Repr, Inhabited

/-- A finite binary64 number. Zero has a sign too. -/
structure Binary64 where
  negative : Bool
  magnitude : Magnitude
  deriving DecidableEq, Repr, Inhabited

/-- A power of two. -/
def twoTo (n : Nat) : Nat := Nat.pow 2 n

/-- A power of ten. -/
def tenTo (n : Nat) : Nat := Nat.pow 10 n

/-- The integer nearest to `n / d`, the even one if two are. -/
def roundQuotient (n d : Nat) : Nat :=
  let q := n / d
  let r := n % d
  if 2 * r < d then q else if d < 2 * r then q + 1 else q + q % 2

/-- `n / d` in units of `2 ^ e`, as numerator and denominator. -/
def inUnits (n d : Nat) (e : Int) : Nat × Nat :=
  if 0 ≤ e then (n, d * twoTo e.toNat) else (n * twoTo (-e).toNat, d)

namespace Magnitude

/-- The least exponent of the format. -/
def minExponent : Int := -1074

/-- The greatest exponent of the format. -/
def maxExponent : Int := 971

def zero : Magnitude := ⟨0, minExponent⟩

/-- The number of the format nearest to `n / d`, unless that is out of range. -/
def ofRatio? (n d : Nat) : Option Magnitude :=
  if n = 0 then some zero
  else
    let low : Int := (n.log2 : Int) - d.log2 - 53
    let (a, b) := inUnits n d low
    let e := max minExponent (if a / b < twoTo 53 then low else low + 1)
    let (a, b) := inUnits n d e
    let s := roundQuotient a b
    let m : Magnitude := if s = twoTo 53 then ⟨twoTo 52, e + 1⟩ else ⟨s, e⟩
    if m.exponent ≤ maxExponent then some m else none

/-- The number of the format nearest to `n`. -/
def ofNat? (n : Nat) : Option Magnitude := ofRatio? n 1

/-- The number of the format nearest to `n / d * 2 ^ e`. -/
def ofScaled? (n d : Nat) (e : Int) : Option Magnitude :=
  let (a, b) := inUnits n d (-e)
  ofRatio? a b

def mul? (x y : Magnitude) : Option Magnitude :=
  ofScaled? (x.significand * y.significand) 1 (x.exponent + y.exponent)

/-- The quotient by a nonzero number. -/
def div? (x y : Magnitude) : Option Magnitude :=
  ofScaled? x.significand y.significand (x.exponent - y.exponent)

/-- The exact value as numerator and denominator. -/
def toRatio (x : Magnitude) : Nat × Nat := inUnits x.significand 1 (-x.exponent)

end Magnitude

end Coordination.Number
