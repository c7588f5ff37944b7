import QueryTuning.Json.Error

/-!
# Errors

Tuning a query cannot fail by itself. Errors arise where a query, a schema or a policy comes in
from outside, and from rules that refuse a query. An `Error` is a cause; `Error.message` gives its
wording and `Error.kind` the boundary that it belongs to.
-/

namespace QueryTuning

/-- Why a query, a schema or a policy is refused. -/
inductive Error where
  /-- A query with an empty select list. -/
  | emptySelect
  /-- A query that is refused for another reason. -/
  | invalidQuery (reason : String)
  /-- A schema that declares a column more than once. -/
  | repeatedColumn (column schema : String)
  /-- A schema that is refused for another reason. -/
  | invalidSchema (reason : String)
  /-- A policy whose default limit is zero. -/
  | zeroDefaultLimit
  /-- A policy that is refused for another reason. -/
  | invalidPolicy (reason : String)
  /-- A text that cannot be read. -/
  | json (error : Json.Error)
deriving DecidableEq, Repr

namespace Error

/-- The boundary at which an error arises. -/
inductive Kind where
  /-- A query is refused. -/
  | query
  /-- A schema is refused. -/
  | schema
  /-- A policy is refused. -/
  | policy
  /-- A text cannot be read. -/
  | json
deriving DecidableEq, Repr

/-- The boundary that an error belongs to. -/
def kind : Error → Kind
  | emptySelect | invalidQuery _ => .query
  | repeatedColumn _ _ | invalidSchema _ => .schema
  | zeroDefaultLimit | invalidPolicy _ => .policy
  | json _ => .json

/-- The name of a boundary, as it stands at the head of a message. -/
def Kind.label : Kind → String
  | query => "InvalidQuery"
  | schema => "SchemaError"
  | policy => "ConfigError"
  | json => "SerdeJsonError"

/-- What is wrong, without the boundary. The wording of a fault in a text is not fixed. -/
def reason : Error → String
  | emptySelect => "query envelope has an empty select list"
  | invalidQuery reason | invalidSchema reason | invalidPolicy reason => reason
  | repeatedColumn column schema =>
    "column '" ++ column ++ "' declared more than once in schema '" ++ schema ++ "'"
  | zeroDefaultLimit => "default_limit must be positive"
  | json (.data mismatch) => mismatch.message
  | json (.fault .truncated) => "the text ends too early"
  | json (.fault .malformed) => "the text is malformed"

/-- The wording of an error. -/
def message (e : Error) : String :=
  e.kind.label ++ ": " ++ e.reason

/-- Succeeds if a condition holds and fails with the given error otherwise. -/
def ensure (condition : Bool) (otherwise : Error) : Except Error Unit :=
  if condition then .ok () else .error otherwise

end Error

/-! ## Computations that may fail -/

/-- A computation that succeeds has succeeded in its first part. -/
theorem exists_of_bind_eq_ok {ε α β : Type} {x : Except ε α} {f : α → Except ε β} {b : β}
    (h : (x >>= f) = .ok b) : ∃ a, x = .ok a ∧ f a = .ok b := by
  cases x with
  | error e => cases h
  | ok a => exact ⟨a, rfl, h⟩

/-- What succeeds with a function applied to its result has succeeded without it. -/
theorem exists_of_map_eq_ok {ε α β : Type} {x : Except ε α} {f : α → β} {b : β}
    (h : f <$> x = .ok b) : ∃ a, x = .ok a ∧ f a = b := by
  cases x with
  | error e => cases h
  | ok a => exact ⟨a, rfl, Except.ok.inj h⟩

/-- A computation that has a result succeeds. -/
theorem eq_ok_of_toOption_eq_some {ε α : Type} {x : Except ε α} {a : α}
    (h : x.toOption = some a) : x = .ok a := by
  cases x with
  | error e => cases h
  | ok b => exact congrArg _ (Option.some.inj h)

end QueryTuning
