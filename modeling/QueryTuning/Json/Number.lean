import QueryTuning.Decimal.Numeral
import QueryTuning.Json.Error

/-!
# The values of numerals

A numeral without a point and a power of ten stands for a whole number as long as that fits into
64 bits, with or without a sign. All other numerals, and a zero with a minus sign, stand for
floating-point numbers.

The value of such a numeral is computed from as many of its digits as fit into 64 bits, by one
multiplication or division by a power of ten. It may thus be off from the nearest floating-point
number by a unit in the last place or two. A numeral that is too large for a finite number is
refused, and one that is too small stands for zero.

* `Numeral.value` : the number that a numeral stands for.
* `Numeral.approximate` : the floating-point number of a numeral.
-/

namespace QueryTuning

namespace Json

/-- The number that a numeral stands for. -/
inductive Number where
  /-- A whole number from `-2 ^ 63` up to below `2 ^ 64`. -/
  | whole (value : Int)
  /-- A floating-point number. -/
  | real (value : Binary64)
deriving DecidableEq, Repr

end Json

namespace Numeral

/-- The value of a decimal digit. -/
def digitValue (c : Char) : Nat := c.toNat - '0'.toNat

/-- Appends digits to a number as long as it stays below `2 ^ 64`. Gives the number and the digits
    that are left from the first one on that does not fit. -/
def pushDigits (n : Nat) : List Char → Nat × List Char
  | [] => (n, [])
  | c :: cs =>
    if n * 10 + digitValue c < 0x10000000000000000 then pushDigits (n * 10 + digitValue c) cs
    else (n, c :: cs)

/-- The power of ten that is written at the end of a numeral. -/
def writtenExponent (n : Numeral) : Int :=
  match n.exponent with
  | none => 0
  | some e =>
    let k : Int := (Nat.ofDigitChars 10 e.digits 0 : Nat)
    if e.sign = some .minus then -k else k

/-- The number made of the leading digits that fit into 64 bits, and the power of ten that it has
    to be scaled by. Every digit that is left out in front of the point counts as a power of ten,
    and every digit that is taken in behind the point takes one back. -/
def significand (n : Numeral) : Nat × Int :=
  let (whole, more) := pushDigits 0 n.whole
  let (digits, unused) := pushDigits whole n.fraction
  let taken := n.fraction.length - unused.length
  (digits, (more.length : Int) - taken + n.writtenExponent)

/-- A power of ten up to `10 ^ 308`. -/
def powerOfTen (k : Nat) : Float := Float.ofScientific 1 false k

/-- A number scaled by a power of ten, or none if it is too large then. -/
def scaleFloat (x : Float) (exponent : Int) : Option Float :=
  let k := exponent.natAbs
  if 0 ≤ exponent then
    if k ≤ 308 then
      let scaled := x * powerOfTen k
      if scaled.isInf then none else some scaled
    else if x == 0 then some x
    else none
  else if k ≤ 308 then some (x / powerOfTen k)
  else if k ≤ 616 then some (x / powerOfTen 308 / powerOfTen (k - 308))
  else some 0

/-- The floating-point number that a numeral stands for, or none if it is too large. -/
def approximate (n : Numeral) : Option Binary64 :=
  let (digits, exponent) := n.significand
  (scaleFloat (UInt64.ofNat digits).toFloat exponent).map fun x =>
    .ofFloat (if n.negative then -x else x)

/-- The whole number that a numeral stands for, if it has neither a point nor a power of ten, fits
    into 64 bits and is no negative zero. -/
def whole? (n : Numeral) : Option Int :=
  let magnitude := Nat.ofDigitChars 10 n.whole 0
  if n.fraction ≠ [] ∨ n.exponent.isSome then none
  else if n.negative then
    if 0 < magnitude ∧ magnitude ≤ 0x8000000000000000 then some (-(magnitude : Int)) else none
  else if magnitude < 0x10000000000000000 then some magnitude
  else none

/-- The number that a numeral stands for. -/
def value (n : Numeral) : Except Json.Fault Json.Number :=
  match n.whole? with
  | some k => .ok (.whole k)
  | none =>
    match n.approximate with
    | some x => .ok (.real x)
    | none => .error .malformed

end Numeral

end QueryTuning
