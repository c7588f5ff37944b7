import QueryTuning.Decimal.Style
import QueryTuning.Text.Quotation

/-!
# What can be wrong with a JSON text

Reading stops at the first problem, and there are two families of them.

* `Fault` : the text is no JSON. Either it ends too early, or something stands where it may not.
* `Mismatch` : the text is JSON so far, but a value does not fit the type that is read.

`Mismatch.message` gives the wording; a fault is reported without one.
-/

namespace QueryTuning.Json

/-- Why a text is no JSON. -/
inductive Fault where
  /-- The text ends too early. -/
  | truncated
  /-- Something stands where it may not. -/
  | malformed
deriving DecidableEq, Repr

/-- What a value was found to be. -/
inductive Found where
  /-- The null value. -/
  | null
  /-- A truth value. -/
  | bool (value : Bool)
  /-- A whole number. -/
  | integer (value : Int)
  /-- A number with a fraction or a power of ten, or too large for a whole number. -/
  | real (value : Binary64)
  /-- A text. -/
  | string (value : String)
  /-- An array. -/
  | array
  /-- An object. -/
  | object
  /-- The bare name of a variant. -/
  | bareVariant
deriving DecidableEq, Repr

/-- What a reader looks for. -/
inductive Expected where
  /-- A truth value. -/
  | bool
  /-- A whole number from zero up to below `2 ^ 64`. -/
  | unsigned
  /-- A whole number from `-2 ^ 63` up to below `2 ^ 63`. -/
  | signed
  /-- Any number. -/
  | real
  /-- A text. -/
  | string
  /-- An array. -/
  | array
  /-- An object. -/
  | object
  /-- The null value and nothing else. -/
  | unit
  /-- A variant together with its content. -/
  | variantContent
  /-- The record of this name. -/
  | record (name : String)
deriving DecidableEq, Repr

/-- Why a value does not fit the type that is read. -/
inductive Mismatch where
  /-- A value of another kind. -/
  | kind (found : Found) (expected : Expected)
  /-- A value of the right kind, but out of range. -/
  | range (found : Found) (expected : Expected)
  /-- An array with too few items for the fields of the record. -/
  | length (items : Nat) (record : String) (fields : Nat)
  /-- A record without one of its fields. -/
  | missingField (field : String)
  /-- A record with one of its fields twice. -/
  | repeatedField (field : String)
  /-- A variant that the type does not have. -/
  | unknownVariant (name : String) (known : List String)
  /-- Neither a truth value nor a text where a flag is read. -/
  | noFlag
  /-- A text that is neither true nor false where a flag is read. -/
  | flagText (text : String)
deriving DecidableEq, Repr

/-- The first problem met when a text is read. -/
inductive Error where
  /-- The text is no JSON. -/
  | fault (fault : Fault)
  /-- A value does not fit. -/
  | data (mismatch : Mismatch)
deriving DecidableEq, Repr

/-- A part of a message that is quoted as it is. -/
def ticked (s : String) : String := "`" ++ s ++ "`"

namespace Found

/-- The wording of what was found. -/
def message : Found → String
  | null => "null"
  | bool b => "boolean " ++ ticked (if b then "true" else "false")
  | integer n => "integer " ++ ticked (toString n)
  | real x => "floating point " ++ ticked (Style.compact.text x)
  | string s => "string " ++ Text.quote s
  | array => "sequence"
  | object => "map"
  | bareVariant => "unit variant"

end Found

namespace Expected

/-- The wording of what was looked for. -/
def message : Expected → String
  | bool => "a boolean"
  | unsigned => "u64"
  | signed => "i64"
  | real => "f64"
  | string => "a string"
  | array => "a sequence"
  | object => "a map"
  | unit => "unit"
  | variantContent => "newtype variant"
  | record name => "struct " ++ name

end Expected

/-- The wording of a choice between names. -/
def oneOf (known : List String) : String :=
  match known.map ticked with
  | [name] => name
  | [first, second] => first ++ " or " ++ second
  | names => "one of " ++ ", ".intercalate names

namespace Mismatch

/-- The wording of a mismatch. -/
def message : Mismatch → String
  | kind found expected =>
    "invalid type: " ++ found.message ++ ", expected " ++ expected.message
  | range found expected =>
    "invalid value: " ++ found.message ++ ", expected " ++ expected.message
  | length items record fields =>
    "invalid length " ++ toString items ++ ", expected struct " ++ record ++ " with "
      ++ toString fields ++ (if fields = 1 then " element" else " elements")
  | missingField field => "missing field " ++ ticked field
  | repeatedField field => "duplicate field " ++ ticked field
  | unknownVariant name known =>
    "unknown variant " ++ ticked name ++ ", expected " ++ oneOf known
  | noFlag => "data did not match any variant of untagged enum Flag"
  | flagText text =>
    "expected \"true\" or \"false\", got \"" ++ text ++ "\""

end Mismatch

end QueryTuning.Json
