/-!
# Numerals

Decimal numerals of natural numbers up to a bound. Reading allows one plus sign and leading
zeros, and nothing else around the digits; writing is `Nat.repr`.
-/

namespace Coordination.Text

/-- The value of a decimal digit. -/
def digitValue? (c : Char) : Option Nat :=
  if '0' ≤ c ∧ c ≤ '9' then some (c.toNat - '0'.toNat) else none

/-- The number that the digits continue from `n`. -/
def readDigits (n : Nat) : List Char → Option Nat
  | [] => some n
  | c :: rest => (digitValue? c).bind fun d => readDigits (10 * n + d) rest

/-- The number of a numeral, if it is at most `bound`. -/
def readNumeral? (bound : Nat) (s : List Char) : Option Nat :=
  let digits := match s with
    | '+' :: rest => rest
    | s => s
  if digits = [] then none
  else (readDigits 0 digits).filter (· ≤ bound)

end Coordination.Text
