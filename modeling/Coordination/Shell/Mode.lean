import Coordination.Shell.Octets
import Coordination.Text.Split

/-!
# Modes

Permissions as numbers of nine bits and three special ones, and the two ways to write a
change of them: octal digits, or clauses that say for whom which permissions are added,
removed or set.
-/

namespace Coordination.Shell

namespace Mode

/-- The permissions of one of the three parties, in its three bits, for everyone. -/
def spread (bits : Nat) : Nat := bits * 0o111

/-- The bits of a party. -/
def party : Char → Nat
  | 'u' => 0o4700
  | 'g' => 0o2070
  | 'o' => 0o1007
  | _ => 0o7777

/-- The bits of a permission for everyone. A conditional one depends on the mode. -/
def permission (mode : Nat) (directory : Bool) : Char → Nat
  | 'r' => 0o444
  | 'w' => 0o222
  | 'x' => 0o111
  | 'X' => if directory || mode &&& 0o111 ≠ 0 then 0o111 else 0
  | 's' => 0o6000
  | 't' => 0o1000
  | 'u' => spread (mode / 64 % 8)
  | 'g' => spread (mode / 8 % 8)
  | _ => spread (mode % 8)

/-- The mode after one action, which a sign starts. -/
def act (parties : Nat) (sign : Char) (bits mode : Nat) : Nat :=
  if sign = '+' then mode ||| (bits &&& parties)
  else if sign = '-' then mode &&& (0o7777 ^^^ (bits &&& parties))
  else (mode &&& (0o7777 ^^^ parties)) ||| (bits &&& parties)

/-- The mode after the actions of a clause. Without parties the mask protects bits. -/
def actions (parties : Nat) (directory : Bool) : Nat → List Char → Nat → Option Nat
  | 0, _, _ => none
  | _ + 1, [], mode => some mode
  | n + 1, sign :: rest, mode =>
    if sign = '+' ∨ sign = '-' ∨ sign = '=' then
      let letters := rest.takeWhile fun c => "rwxXstugo".toList.contains c
      let bits := letters.foldl (fun bits c => bits ||| permission mode directory c) 0
      actions parties directory n (rest.drop letters.length) (act parties sign bits mode)
    else none

/-- The mode after a clause. -/
def clause (mask : Nat) (directory : Bool) (text : List Char) (mode : Nat) : Option Nat :=
  let names := text.takeWhile fun c => "ugoa".toList.contains c
  let rest := text.drop names.length
  let parties := if names.isEmpty then 0o7777 ^^^ mask
    else names.foldl (fun bits c => bits ||| party c) 0
  if rest.isEmpty then none else actions parties directory (rest.length + 1) rest mode

/-- The mode that a text makes of another one. -/
def change (text : String) (mask : Nat) (directory : Bool) (mode : Nat) : Option Nat :=
  if text ≠ "" ∧ text.toList.all isOctal then
    let n := (readDigits 8 0 text.toList).1
    if n ≤ 0o7777 then some n else none
  else
    (Text.splitAll ',' text.toList).foldl (fun mode text =>
      mode.bind (clause mask directory text)) (some mode)

/-- The octal digits of a mask. -/
def octal (mode : Nat) : String :=
  let digits := Nat.toDigits 8 mode
  String.ofList (List.replicate (4 - digits.length) '0' ++ digits)

/-- The letters of permissions. -/
def letters (bits : Nat) : String :=
  String.ofList ((if bits &&& 4 ≠ 0 then ['r'] else []) ++
    (if bits &&& 2 ≠ 0 then ['w'] else []) ++ (if bits &&& 1 ≠ 0 then ['x'] else []))

/-- A mode in letters. -/
def symbolic (mode : Nat) : String :=
  "u=" ++ letters (mode / 64 % 8) ++ ",g=" ++ letters (mode / 8 % 8) ++ ",o=" ++
    letters (mode % 8)

end Mode

end Coordination.Shell
