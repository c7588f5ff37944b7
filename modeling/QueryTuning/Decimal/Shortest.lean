import QueryTuning.Decimal.Binary64

/-!
# The shortest decimal of a floating-point number

Among the decimals that read back to a given number, `Magnitude.shortest` takes one with the
fewest digits, and of those the one nearest to the exact value. Where two are equally near, the
`Tie` rule of the format decides.

* `Magnitude.readsBack` : whether a decimal lies among the reals that round to the number.
* `Magnitude.onGrid` : the best decimal with a given place for its last digit.
* `Magnitude.shortest` : the decimal that is written.

All comparisons are between natural numbers, by cross-multiplication, so nothing is rounded on
the way.
-/

namespace QueryTuning

/-- The decimal number `digits * 10 ^ exponent`. -/
structure Decimal where
  /-- All digits, as one number. -/
  digits : Nat
  /-- The power of ten that the last digit stands for. -/
  exponent : Int
deriving DecidableEq, Repr

/-- Which of two equally near decimals is taken. -/
inductive Tie where
  /-- The one whose last digit is even. -/
  | toEven
  /-- The larger one. -/
  | upward
deriving DecidableEq, Repr

namespace Magnitude

/-- Compares `a * 10 ^ i` with `n * 2 ^ j`. -/
def compareScaled (a : Nat) (i : Int) (n : Nat) (j : Int) : Ordering :=
  compare ((a * Nat.pow 10 i.toNat) <<< (-j).toNat) ((n * Nat.pow 10 (-i).toNat) <<< j.toNat)

/-- Whether `d` lies among the reals that round to `x`: between the midpoints to the two
    neighbours, the midpoints themselves included if `x.m` is even. -/
def readsBack (x : Magnitude) (d : Decimal) : Bool :=
  let low := if x.narrowBelow then 4 * x.m - 1 else 4 * x.m - 2
  let high := 4 * x.m + 2
  let ends := x.m % 2 == 0
  let toLow := compareScaled d.digits d.exponent low (x.q - 2)
  let toHigh := compareScaled d.digits d.exponent high (x.q - 2)
  (toLow == .gt || ends && toLow == .eq) && (toHigh == .lt || ends && toHigh == .eq)

/-- The least `k` with `x < 10 ^ k`, which is one more than the exponent of the leading digit.
    The binary logarithm gives a bound from below that is off by at most two. -/
def scale (x : Magnitude) : Int :=
  let low := ((x.m.log2 : Int) + x.q) * 30103 / 100000
  if compareScaled 1 low x.m x.q == .gt then low
  else if compareScaled 1 (low + 1) x.m x.q == .gt then low + 1
  else low + 2

/-- The largest number of units `10 ^ e` that does not exceed `x`. -/
def unitsBelow (x : Magnitude) (e : Int) : Nat :=
  ((x.m * Nat.pow 10 (-e).toNat) <<< x.q.toNat) / (Nat.pow 10 e.toNat <<< (-x.q).toNat)

/-- The decimal with last digit at `10 ^ e` that reads back to `x` and is nearest to it, if there
    is any. Only the two grid points around `x` have to be looked at. -/
def onGrid (x : Magnitude) (tie : Tie) (e : Int) : Option Decimal :=
  let below : Decimal := ⟨x.unitsBelow e, e⟩
  let above : Decimal := ⟨below.digits + 1, e⟩
  match x.readsBack below, x.readsBack above with
  | false, false => none
  | true, false => some below
  | false, true => some above
  | true, true =>
    match compareScaled (2 * below.digits + 1) e x.m (x.q + 1), tie with
    | .gt, _ => some below
    | .lt, _ => some above
    | .eq, .toEven => some (if below.digits % 2 == 0 then below else above)
    | .eq, .upward => some above

/-- The exact value as a decimal. -/
def exact (x : Magnitude) : Decimal :=
  ⟨(x.m * Nat.pow 5 (-x.q).toNat) <<< x.q.toNat, min x.q 0⟩

/-- The decimal with the fewest digits that reads back to `x`. Seventeen digits are enough for
    every number; the exact value stands in where none of them would be. -/
def shortest (x : Magnitude) (tie : Tie) : Decimal :=
  let k := x.scale
  ((List.range 17).findSome? fun n => x.onGrid tie (k - (n + 1 : Nat))).getD x.exact

end Magnitude

end QueryTuning
