/-!
# Decimal numerals

A `Numeral` is a number as it is spelled: sign, digits before and after the point, and a power of
ten. Different numerals may stand for the same number.

* `Numeral.chars` : the spelling.
* `Numeral.ofNat`, `Numeral.ofInt` : the plain spelling of a whole number.
* `Numeral.WellFormed` : the spellings that JSON admits.
-/

namespace QueryTuning

/-- The sign of an exponent, where one is written. -/
inductive Sign where
  /-- `+` -/
  | plus
  /-- `-` -/
  | minus
deriving DecidableEq, Repr

/-- The power of ten at the end of a numeral. -/
structure Exponent where
  /-- Whether the mark is `E` and not `e`. -/
  upper : Bool := false
  /-- The sign, if there is one. -/
  sign : Option Sign := none
  /-- The digits. -/
  digits : List Char
deriving DecidableEq, Repr

/-- A number as it is spelled. -/
structure Numeral where
  /-- Whether a minus sign stands in front. -/
  negative : Bool := false
  /-- The digits before the point. -/
  whole : List Char
  /-- The digits after the point; without any there is no point either. -/
  fraction : List Char := []
  /-- The power of ten, if there is one. -/
  exponent : Option Exponent := none
deriving DecidableEq, Repr

namespace Sign

/-- The sign as a character. -/
def char : Sign → Char
  | plus => '+'
  | minus => '-'

end Sign

namespace Exponent

/-- The spelling of a power of ten. -/
def chars (e : Exponent) : List Char :=
  (if e.upper then 'E' else 'e') :: (e.sign.toList.map Sign.char ++ e.digits)

end Exponent

namespace Numeral

/-- The digits after the point, behind the point. -/
def fractionChars (n : Numeral) : List Char :=
  if n.fraction.isEmpty then [] else '.' :: n.fraction

/-- The power of ten, or nothing. -/
def exponentChars (n : Numeral) : List Char :=
  match n.exponent with
  | some e => e.chars
  | none => []

/-- The spelling of a numeral. -/
def chars (n : Numeral) : List Char :=
  (if n.negative then ['-'] else []) ++ n.whole ++ n.fractionChars ++ n.exponentChars

/-- The spelling of a numeral, as a text. -/
def text (n : Numeral) : String := String.ofList n.chars

/-- The shortest spelling of a natural number. -/
def ofNat (n : Nat) : Numeral where
  whole := Nat.toDigits 10 n

/-- The shortest spelling of an integer. -/
def ofInt : Int → Numeral
  | .ofNat n => ofNat n
  | .negSucc n => { ofNat (n + 1) with negative := true }

/-- A nonempty run of decimal digits. -/
def IsRun (ds : List Char) : Prop := ds ≠ [] ∧ ∀ c ∈ ds, c.isDigit = true

/-- JSON admits a numeral if each of its parts is a nonempty run of digits, a fraction that is
    left out apart, and the run before the point has no needless zero in front. -/
structure WellFormed (n : Numeral) : Prop where
  whole_isRun : IsRun n.whole
  whole_head : n.whole.head? = some '0' → n.whole = ['0']
  fraction_digits : ∀ c ∈ n.fraction, c.isDigit = true
  exponent_isRun : ∀ e ∈ n.exponent, IsRun e.digits

end Numeral

end QueryTuning
