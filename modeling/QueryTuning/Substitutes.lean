import QueryTuning.Expr.Basic

/-!
# Substitutes for functions, by name

`Substitutes` tell which function is called in the place of another one. They are a list of
patterns that are tried in order, and the first one that fits a name counts.

* `NamePattern.match?` : what a single pattern says about a name.
* `Substitutes.lookup` : the substitution for a name, in whatever case it is written.
* `Substitutes.approximate` : approximate aggregations for exact ones.
* `numericSuffix` : reads the number at the end of a name.
-/

namespace QueryTuning

/-! ## Functions that are known by name -/

namespace FunctionName

/-- Counts distinct values. -/
def distinctCount : String := "distinctcount"

/-- Counts distinct values of a column with several values in a row. -/
def distinctCountMV : String := "distinctcountmv"

/-- Counts distinct values segment by segment. -/
def segmentPartitionedDistinctCount : String := "segmentpartitioneddistinctcount"

/-- Counts distinct values, approximately from a certain size on. -/
def distinctCountSmartHLL : String := "distinctcountsmarthll"

/-- Counts distinct values approximately. -/
def distinctCountHLL : String := "distinctcounthll"

/-- Counts distinct values by a bitmap. -/
def distinctCountBitmap : String := "distinctcountbitmap"

/-- Lists distinct values. -/
def distinct : String := "distinct"

/-- A percentile. -/
def percentile : String := "percentile"

/-- A percentile of a column with several values in a row. -/
def percentileMV : String := "percentilemv"

/-- A percentile, approximate from a certain size on. -/
def percentileSmartTDigest : String := "percentilesmarttdigest"

/-- A percentile, approximated by a digest. -/
def percentileTDigest : String := "percentiletdigest"

/-- A percentile, estimated. -/
def percentileEst : String := "percentileest"

end FunctionName

/-! ## Numbers at the end of a name -/

/-- What is left of a list behind the given beginning, if it begins that way. -/
def dropStem? : List Char → List Char → Option (List Char)
  | [], cs => some cs
  | _ :: _, [] => none
  | a :: stem, c :: cs => if a = c then dropStem? stem cs else none

/-- A list begins with a stem exactly if something is left behind it. -/
theorem dropStem?_eq_some_iff {stem cs rest : List Char} :
    dropStem? stem cs = some rest ↔ cs = stem ++ rest := by
  induction stem generalizing cs with
  | nil => simp [dropStem?]
  | cons a stem ih =>
    cases cs with
    | nil => simp [dropStem?]
    | cons c cs =>
      by_cases h : a = c
      · simp [dropStem?, h, ih]
      · simp [dropStem?, h, eq_comm]

/-- Removes one mark `mv` from the end, if there is one. -/
def dropMV : List Char → List Char
  | [] => []
  | ['m', 'v'] => []
  | c :: cs => c :: dropMV cs

/-- The number that a run of decimal digits stands for. -/
def digitsValue (ds : List Char) : Nat := Nat.ofDigitChars 10 ds 0

/-- The number of a nonempty run of digits, as far as 64 bits with a sign can hold it. -/
def digitsInt64? (ds : List Char) : Option Int64 :=
  if ds ≠ [] ∧ ds.all Char.isDigit ∧ digitsValue ds < 0x8000000000000000 then
    some (Int64.ofNat (digitsValue ds))
  else
    none

/-- Reads a name that is made of a stem, a number and perhaps `mv`, and gives the number. -/
def numericSuffix (stem name : String) : Option Int64 :=
  (dropStem? stem.toList (dropMV name.toList)).bind digitsInt64?

/-- The number in a name such as `percentile95` or `percentile95mv`, in whatever case. -/
def percentileSuffix (name : String) : Option Int64 :=
  numericSuffix FunctionName.percentile (canonicalName name)

/-! ## Patterns and substitutes -/

/-- What becomes of a call: the function that is called instead, and a number that is added behind
    the operands. -/
structure Substitution where
  /-- The function that is called instead. -/
  target : String
  /-- The number that is added behind the operands, if there is one. -/
  appended : Option Int64 := none
deriving DecidableEq, Repr

/-- A way to recognise function names. -/
inductive NamePattern where
  /-- Knows single names, each with its target. The first entry for a name counts. -/
  | table (entries : List (String × String))
  /-- Knows a stem with a number behind it, and takes the number for an operand. -/
  | numbered (stem target : String)
deriving DecidableEq, Repr

namespace NamePattern

/-- The substitution for a name, if the pattern fits it. -/
def match? : NamePattern → String → Option Substitution
  | table entries, name =>
    (entries.find? (·.1 == name)).map fun entry => { target := entry.2 }
  | numbered stem target, name =>
    (numericSuffix stem name).map fun n => { target, appended := some n }

end NamePattern

/-- Patterns, tried in order. -/
structure Substitutes where
  /-- The patterns, first one first. -/
  patterns : List NamePattern
deriving DecidableEq, Repr

namespace Substitutes

/-- Adds a pattern behind all others. -/
def add (s : Substitutes) (pattern : NamePattern) : Substitutes :=
  ⟨s.patterns ++ [pattern]⟩

/-- The substitution for a function, told by its canonical name. -/
def lookup (s : Substitutes) (name : String) : Option Substitution :=
  s.patterns.findSome? (·.match? (canonicalName name))

/-- A pattern that is added counts only where no earlier one fits. -/
theorem lookup_add (s : Substitutes) (pattern : NamePattern) (name : String) :
    (s.add pattern).lookup name
      = (s.lookup name).or (pattern.match? (canonicalName name)) := by
  simp [lookup, add, List.findSome?_append]

/-- The single names that the approximate aggregations stand in for. What is approximate already
    stands in for itself. -/
def approximateTable : List (String × String) :=
  [(FunctionName.distinctCount, FunctionName.distinctCountSmartHLL),
   (FunctionName.distinctCountMV, FunctionName.distinctCountSmartHLL),
   (FunctionName.distinct, FunctionName.distinct),
   (FunctionName.distinctCountHLL, FunctionName.distinctCountHLL),
   (FunctionName.distinctCountBitmap, FunctionName.distinctCountBitmap),
   (FunctionName.percentile, FunctionName.percentileSmartTDigest),
   (FunctionName.percentileMV, FunctionName.percentileSmartTDigest),
   (FunctionName.percentileTDigest, FunctionName.percentileTDigest),
   (FunctionName.percentileEst, FunctionName.percentileEst)]

/-- Approximate aggregations in the place of exact ones. -/
def approximate : Substitutes :=
  ⟨[.table approximateTable,
    .numbered FunctionName.percentile FunctionName.percentileSmartTDigest]⟩

end Substitutes

end QueryTuning
