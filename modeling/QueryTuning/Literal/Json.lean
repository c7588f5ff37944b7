import QueryTuning.Json.Basic
import QueryTuning.Json.Variant
import QueryTuning.Literal

/-!
# Literals in JSON

A literal is a variant named for its type. The missing value is the bare name `"Null"`.
-/

namespace QueryTuning.Literal

/-- The JSON value of a literal. -/
def toJson : Literal → Json
  | null => .string "Null"
  | bool b => .variant "Bool" (.bool b)
  | int n => .variant "Int64" (.int n.toInt)
  | float x => .variant "Float64" (.real x)
  | string s => .variant "String" (.string s)

/-- The forms of a literal. -/
def variants : List (Json.Variant Literal) :=
  [.bare "Null" null,
   .holding "Bool" bool Json.Reader.bool,
   .holding "Int64" int Json.Reader.int64,
   .holding "Float64" float Json.Reader.real,
   .holding "String" string Json.Reader.string]

/-- Reads a literal. -/
def reader : Json.Reader Literal := Json.Variant.reader variants

end QueryTuning.Literal
