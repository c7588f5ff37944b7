/-!
# Columns

A `Column` is what a schema declares under a name: the type of its values, the role it plays in
the table, and whether a row holds one value or several.
-/

namespace QueryTuning

/-- The type of the values of a column. -/
inductive DataType where
  /-- Whole numbers of 32 bits. -/
  | int
  /-- Whole numbers of 64 bits. -/
  | long
  /-- Floating-point numbers of single precision. -/
  | float
  /-- Floating-point numbers of double precision. -/
  | double
  /-- Decimal numbers of any size. -/
  | bigDecimal
  /-- Truth values. -/
  | boolean
  /-- Points in time. -/
  | timestamp
  /-- Texts. -/
  | string
  /-- Structured values. -/
  | json
  /-- Sequences of bytes. -/
  | bytes
deriving DecidableEq, Repr

namespace DataType

/-- All data types. -/
def all : List DataType :=
  [int, long, float, double, bigDecimal, boolean, timestamp, string, json, bytes]

/-- The name of a data type in a schema. -/
def name : DataType → String
  | int => "INT"
  | long => "LONG"
  | float => "FLOAT"
  | double => "DOUBLE"
  | bigDecimal => "BIG_DECIMAL"
  | boolean => "BOOLEAN"
  | timestamp => "TIMESTAMP"
  | string => "STRING"
  | json => "JSON"
  | bytes => "BYTES"

end DataType

/-- The role of a column in its table. -/
inductive ColumnKind where
  /-- What rows are grouped and filtered by. -/
  | dimension
  /-- What is aggregated. -/
  | metric
  /-- When a row belongs. -/
  | dateTime
deriving DecidableEq, Repr

/-- How many values a row holds in a column. -/
inductive Cardinality where
  /-- One value. -/
  | single
  /-- Any number of values. -/
  | multiple
deriving DecidableEq, Repr

/-- A column as a schema declares it. -/
structure Column where
  /-- The name. -/
  name : String
  /-- The type of its values. -/
  dataType : DataType
  /-- Whether a row holds exactly one value. -/
  singleValued : Bool := true
  /-- The role in the table. -/
  kind : ColumnKind := .dimension
deriving DecidableEq, Repr

namespace Column

/-- A dimension with one value in a row. -/
def dimension (name : String) (dataType : DataType) : Column := { name, dataType }

/-- A dimension with any number of values in a row. -/
def multiValued (name : String) (dataType : DataType) : Column :=
  { name, dataType, singleValued := false }

/-- A metric. -/
def metric (name : String) (dataType : DataType) : Column :=
  { name, dataType, kind := .metric }

/-- A point in time. -/
def dateTime (name : String) (dataType : DataType) : Column :=
  { name, dataType, kind := .dateTime }

/-- How many values a row holds. -/
def cardinality (c : Column) : Cardinality :=
  if c.singleValued then .single else .multiple

end Column

end QueryTuning
