import QueryTuning.Error

/-!
# Policies

A `Policy` is what an operator lets the rules do: how many rows a query may ask for, which variants
of a distinct count may be chosen, and whether exact results may be traded for approximate ones.
-/

namespace QueryTuning

/-- Which variant of a distinct count wins where two of them fit. -/
inductive Precedence where
  /-- The variant for columns with several values in a row. -/
  | multiValue
  /-- The variant for columns that segments are partitioned by. -/
  | segmentPartitioned
deriving DecidableEq, Repr

/-- The limit of a query that has none. -/
def standardLimit : UInt64 := 10

/-- The highest limit that a query may have, if nothing else is said. -/
def standardCeiling : UInt64 := 1000000

/-- What the rules may do. -/
structure Policy where
  /-- The highest limit that a query may have. -/
  ceiling : UInt64 := standardCeiling
  /-- The limit of a query that has none. -/
  defaultLimit : UInt64 := standardLimit
  /-- Whether exact aggregations may be replaced by approximate ones. -/
  approximate : Bool := false
  /-- Whether distinct values may be counted segment by segment. -/
  segmentPartitioned : Bool := true
  /-- Whether the distinct count for several values in a row may be chosen. -/
  multiValued : Bool := true
  /-- Which variant of a distinct count wins where both fit. -/
  precedence : Precedence := .multiValue
deriving DecidableEq, Repr

namespace Policy

/-- The default limit, as far as the ceiling lets it. -/
def impliedLimit (p : Policy) : UInt64 :=
  min p.defaultLimit p.ceiling

/-- Refuses a policy whose default limit is zero. A ceiling of zero is let through. -/
def validate (p : Policy) : Except Error Unit :=
  Error.ensure (p.defaultLimit != 0) .zeroDefaultLimit

end Policy

end QueryTuning
