import QueryTuning.Decimal.Style

/-!
# Literals

A `Literal` is a constant of a query. `Literal.text` spells it as it stands in a query: a text is
put between single quotes, and a single quote inside of it is written twice, so that the text ends
at the first quote that stands alone.
-/

namespace QueryTuning

/-- A constant of a query. -/
inductive Literal where
  /-- The missing value. -/
  | null
  /-- A truth value. -/
  | bool (value : Bool)
  /-- A whole number. -/
  | int (value : Int64)
  /-- A floating-point number. -/
  | float (value : Binary64)
  /-- A text. -/
  | string (value : String)
deriving DecidableEq, Repr

namespace Literal

/-- The mark at both ends of a text. -/
def quoteMark : Char := '\x27'

/-- Writes every quote mark twice and all else once. -/
def doubleQuotes : List Char → List Char
  | [] => []
  | c :: rest =>
    if c = quoteMark then c :: c :: doubleQuotes rest else c :: doubleQuotes rest

/-- A text between quote marks. -/
def quoted (s : String) : String :=
  String.ofList (quoteMark :: doubleQuotes s.toList ++ [quoteMark])

/-- The spelling of a constant in a query. -/
def text : Literal → String
  | null => "NULL"
  | bool b => if b then "true" else "false"
  | int n => (Numeral.ofInt n.toInt).text
  | float x => Style.plain.text x
  | string s => quoted s

end Literal

end QueryTuning
