import QueryTuning.Expr.Basic
import QueryTuning.Json.Record
import QueryTuning.Literal.Json

/-!
# Expressions in JSON

An expression is a variant: a literal, an identifier, or a function with the record of its call.
The operands of a call stand inside of three more brackets than the call itself, so the reader
recurses on the room that is left, three brackets at a time.

* `Expr.toJson` : the JSON value of an expression.
* `Expr.reader` : reads an expression.
* `Expr.callJson`, `Expr.callReader` : the same for the record of a call alone.
-/

namespace QueryTuning.Expr

/-- The record of a call whose operands have been written already. -/
def callRecord (operator : String) (operands : List Json) : Json :=
  .object [("operator", .string operator), ("operands", .array operands)]

/-- The JSON value of an expression. -/
def toJson (e : Expr) : Json :=
  e.fold (fun v => .variant "Literal" v.toJson)
    (fun x => .variant "Identifier" (.string x))
    fun f operands => .variant "Function" (callRecord f operands)

@[simp] theorem toJson_literal (v : Literal) :
    toJson (.literal v) = .variant "Literal" v.toJson := rfl

@[simp] theorem toJson_identifier (x : String) :
    toJson (.identifier x) = .variant "Identifier" (.string x) := rfl

@[simp] theorem toJson_call (f : String) (es : List Expr) :
    toJson (.call f es) = .variant "Function" (callRecord f (es.map toJson)) := by
  simp only [toJson, fold_call]
  rfl

/-! ## Calls -/

/-- A call of which not everything may have been read yet. -/
structure CallDraft where
  /-- The function. -/
  operator : Option String := none
  /-- The operands. -/
  operands : Option (List Expr) := none

/-- The record of a call, for a given way to read operands. -/
def callFormat (operand : Json.Reader Expr) : Json.Record CallDraft (String × List Expr) where
  name := "FunctionCall"
  fields :=
    [.of "operator" (·.operator) (fun d f => { d with operator := some f }) Json.Reader.string,
     .of "operands" (·.operands) (fun d es => { d with operands := some es })
       (Json.Reader.list operand)]
  start := {}
  finish d := do
    let operator ← Json.required "operator" d.operator
    let operands ← Json.required "operands" d.operands
    return (operator, operands)

/-! ## Expressions -/

/-- The forms of an expression, for a given way to read operands. -/
def variants (operand : Json.Reader Expr) : List (Json.Variant Expr) :=
  [.holding "Literal" literal Literal.reader,
   .holding "Identifier" identifier Json.Reader.string,
   .holding "Function" (fun c => call c.1 c.2) (callFormat operand).reader]

/-- Reads an operand where there is no room for one, which never comes to pass: the brackets around
    it are refused before. -/
def noOperand : Json.Reader Expr := fun _ _ => Json.malformed

/-- Reads an expression. -/
def reader : Json.Reader Expr
  | 0 => Json.Variant.reader (variants noOperand) 0
  | 1 => Json.Variant.reader (variants noOperand) 1
  | 2 => Json.Variant.reader (variants noOperand) 2
  | room + 3 => Json.Variant.reader (variants fun _ => reader room) (room + 3)

/-- Reads the record of a call. -/
def callReader : Json.Reader (String × List Expr) := (callFormat reader).reader

/-- The JSON value of the record of a call. -/
def callJson (operator : String) (operands : List Expr) : Json :=
  callRecord operator (operands.map toJson)

end QueryTuning.Expr
