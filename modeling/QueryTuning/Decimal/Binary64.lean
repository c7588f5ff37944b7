/-!
# Double-precision numbers

A `Binary64` is a floating-point number given by its 64 bits, so two of them are equal exactly if
their bits are: the two zeros differ, and so do two not-a-numbers of different payload.

* `Binary64.classify` : what the bits stand for.
* `Magnitude` : the exact value `m * 2 ^ q` of a finite number, sign apart.
-/

namespace QueryTuning

/-- A double-precision floating-point number, told apart by its bits. -/
structure Binary64 where
  /-- Sign, exponent and fraction, from the highest bit down. -/
  bits : UInt64
deriving DecidableEq, Repr

/-- A positive value `m * 2 ^ q`. -/
structure Magnitude where
  /-- The integer part of the representation. -/
  m : Nat
  /-- The power of two it is scaled by. -/
  q : Int
  /-- Whether the next smaller representable value is only half as far away as the next larger
      one, as it is at the powers of two. -/
  narrowBelow : Bool

namespace Binary64

/-- The number with the bits of a machine float. -/
def ofFloat (x : Float) : Binary64 := ⟨x.toBits⟩

/-- Whether the sign bit is set. -/
def isNegative (x : Binary64) : Bool := x.bits >>> 63 == 1

/-- The eleven bits of the exponent. -/
def exponentBits (x : Binary64) : Nat := (x.bits >>> 52 &&& 0x7FF).toNat

/-- The lowest 52 bits. -/
def fractionBits (x : Binary64) : Nat := (x.bits &&& 0xFFFFFFFFFFFFF).toNat

/-- What a number is, its sign apart. -/
inductive Class where
  /-- Not a number. -/
  | nan
  /-- Larger than every finite value. -/
  | infinite
  /-- Zero. -/
  | zero
  /-- A positive finite value. -/
  | finite (value : Magnitude)

/-- What the bits of a number stand for. -/
def classify (x : Binary64) : Class :=
  let e := x.exponentBits
  let f := x.fractionBits
  if e = 0x7FF then
    if f = 0 then .infinite else .nan
  else if e = 0 then
    if f = 0 then .zero else .finite ⟨f, -1074, false⟩
  else
    .finite ⟨0x10000000000000 + f, (e : Int) - 1075, f == 0 && e > 1⟩

/-- Whether the number is neither infinite nor not-a-number. -/
def isFinite (x : Binary64) : Bool := x.exponentBits != 0x7FF

end Binary64

end QueryTuning
