import QueryTuning.Decimal.Numeral
import QueryTuning.Decimal.Shortest

/-!
# Styles of writing floating-point numbers

Which digits are written is settled by `Magnitude.shortest`. A `Style` holds what is left to
decide: from which size on a power of ten is split off, whether a whole number shows a zero after
the point, and the rule for ties.

* `Style.numeral` : the numeral of a finite number.
* `Style.text` : the text of any number, infinities and not-a-numbers included.
-/

namespace QueryTuning

namespace Decimal

/-- The digits without the zeros at the end. -/
def significant (d : Decimal) : List Char :=
  ((Nat.toDigits 10 d.digits).reverse.dropWhile (· == '0')).reverse

/-- The power of ten that the first digit stands for. -/
def leading (d : Decimal) : Int :=
  d.exponent + (Nat.toDigits 10 d.digits).length - 1

end Decimal

/-- The decisions that turn a shortest decimal into a text. -/
structure Style where
  /-- Whether a number whose first digit stands for this power of ten is written out in full. -/
  positional : Int → Bool
  /-- Whether a whole number that is written out ends in a point and a zero. -/
  pointZero : Bool
  /-- Which of two equally near decimals is taken. -/
  tie : Tie

namespace Style

/-- Every digit at its place. The fraction is empty for a whole number. -/
def spread (significant : List Char) (leading : Int) : Numeral :=
  let places := leading.toNat + 1
  if leading < 0 then
    { whole := ['0'], fraction := List.replicate (-leading - 1).toNat '0' ++ significant }
  else
    { whole := significant.take places ++ List.replicate (places - significant.length) '0'
      fraction := significant.drop places }

/-- One digit before the point, and the power of ten with its sign. -/
def scientific (significant : List Char) (leading : Int) : Numeral where
  whole := significant.take 1
  fraction := significant.drop 1
  exponent := some
    { sign := some (if leading < 0 then .minus else .plus)
      digits := Nat.toDigits 10 leading.natAbs }

/-- Gives a numeral without a fraction the fraction zero, if the style asks for one. -/
def withPoint (style : Style) (n : Numeral) : Numeral :=
  if style.pointZero && n.fraction.isEmpty then { n with fraction := ['0'] } else n

/-- The numeral of a positive value. -/
def magnitude (style : Style) (x : Magnitude) : Numeral :=
  let d := x.shortest style.tie
  if style.positional d.leading then style.withPoint (spread d.significant d.leading)
  else scientific d.significant d.leading

/-- The numeral of a number, for what is no finite number that of zero. -/
def numeral (style : Style) (x : Binary64) : Numeral :=
  let n := match x.classify with
    | .finite value => style.magnitude value
    | _ => style.withPoint (spread ['0'] 0)
  { n with negative := x.isNegative }

/-- The text of a number. Infinities keep their sign, and a not-a-number has none. -/
def text (style : Style) (x : Binary64) : String :=
  match x.classify with
  | .nan => "NaN"
  | .infinite => if x.isNegative then "-inf" else "inf"
  | _ => (style.numeral x).text

/-- Plain style: every number is written out in full, whole numbers without a point. -/
def plain : Style where
  positional _ := true
  pointZero := false
  tie := .upward

/-- Compact style: numbers from `0.00001` up to below `10 ^ 16` are written out in full and show at
    least one digit after the point, all others have a power of ten. -/
def compact : Style where
  positional e := -5 ≤ e && e ≤ 15
  pointZero := true
  tie := .toEven

end Style

end QueryTuning
