import QueryTuning.Literal

/-!
# Expressions

An `Expr` is a constant, the name of a column, or the call of a function on operands that are
expressions themselves. Operators such as a comparison are calls too.

* `Expr.fold` : what a function on expressions is built from, with one case for each form.
* `Expr.inductionOn` : induction with the hypothesis for every operand of a call.
* `canonicalName` : what is left of a function name when case and underscores do not count.
-/

namespace QueryTuning

/-- A function name without underscores and in lower case. Two names stand for one function if
    they agree in this form. Only the letters from `A` to `Z` have a lower case here. -/
def canonicalName (name : String) : String :=
  String.ofList ((name.toList.filter (· != '_')).map Char.toLower)

/-- An expression of a query. -/
inductive Expr where
  /-- A constant. -/
  | literal (value : Literal)
  /-- The name of a column. -/
  | identifier (name : String)
  /-- A function applied to its operands; the name is kept as it was written. -/
  | call (operator : String) (operands : List Expr)
deriving Repr

namespace Expr

/-! ## Recursion and induction -/

variable {α : Type}

mutual

/-- Replaces every form by a function of what its operands became. -/
def fold (onLiteral : Literal → α) (onIdentifier : String → α)
    (onCall : String → List α → α) : Expr → α
  | literal v => onLiteral v
  | identifier x => onIdentifier x
  | call f es => onCall f (foldAll onLiteral onIdentifier onCall es)

/-- Folds every expression of a list. -/
def foldAll (onLiteral : Literal → α) (onIdentifier : String → α)
    (onCall : String → List α → α) : List Expr → List α
  | [] => []
  | e :: es =>
    fold onLiteral onIdentifier onCall e :: foldAll onLiteral onIdentifier onCall es

end

/-- Folding a list folds each of its members. -/
theorem foldAll_eq_map (onLiteral : Literal → α) (onIdentifier : String → α)
    (onCall : String → List α → α) (es : List Expr) :
    foldAll onLiteral onIdentifier onCall es
      = es.map (fold onLiteral onIdentifier onCall) := by
  induction es with
  | nil => rfl
  | cons e es ih => simp [foldAll, ih]

@[simp] theorem fold_literal (l : Literal → α) (i : String → α) (c : String → List α → α)
    (v : Literal) : fold l i c (.literal v) = l v := rfl

@[simp] theorem fold_identifier (l : Literal → α) (i : String → α) (c : String → List α → α)
    (x : String) : fold l i c (.identifier x) = i x := rfl

@[simp] theorem fold_call (l : Literal → α) (i : String → α) (c : String → List α → α)
    (f : String) (es : List Expr) :
    fold l i c (.call f es) = c f (es.map (fold l i c)) := by
  simp [fold, foldAll_eq_map]

/-- Induction over expressions: for a call, the statement may be assumed for every operand. -/
theorem inductionOn {motive : Expr → Prop}
    (literal : ∀ v, motive (.literal v))
    (identifier : ∀ x, motive (.identifier x))
    (call : ∀ f es, (∀ e ∈ es, motive e) → motive (.call f es)) :
    ∀ e, motive e :=
  fun e => Expr.rec (motive_1 := motive) (motive_2 := fun es => ∀ e ∈ es, motive e)
    literal identifier call
    (fun _ h => absurd h List.not_mem_nil)
    (fun _ _ head tail e h =>
      match List.mem_cons.mp h with
      | .inl eq => eq ▸ head
      | .inr mem => tail e mem)
    e

/-! ## Equality -/

mutual

/-- Decides whether two expressions are equal. -/
def decideEq : (a b : Expr) → Decidable (a = b)
  | literal v, literal w => decidable_of_iff (v = w) (by simp)
  | identifier x, identifier y => decidable_of_iff (x = y) (by simp)
  | call f es, call g ds =>
    match decEq f g, decideAllEq es ds with
    | isTrue hf, isTrue hes => isTrue (by rw [hf, hes])
    | isFalse hf, _ => isFalse (by simp [hf])
    | _, isFalse hes => isFalse (by simp [hes])
  | literal _, identifier _ => isFalse (by simp)
  | literal _, call _ _ => isFalse (by simp)
  | identifier _, literal _ => isFalse (by simp)
  | identifier _, call _ _ => isFalse (by simp)
  | call _ _, literal _ => isFalse (by simp)
  | call _ _, identifier _ => isFalse (by simp)

/-- Decides whether two lists of expressions are equal. -/
def decideAllEq : (as bs : List Expr) → Decidable (as = bs)
  | [], [] => isTrue rfl
  | [], _ :: _ => isFalse (by simp)
  | _ :: _, [] => isFalse (by simp)
  | a :: as, b :: bs =>
    match decideEq a b, decideAllEq as bs with
    | isTrue h, isTrue hs => isTrue (by rw [h, hs])
    | isFalse h, _ => isFalse (by simp [h])
    | _, isFalse hs => isFalse (by simp [hs])

end

instance : DecidableEq Expr := decideEq

/-! ## Parts of an expression -/

/-- The operands of a call; nothing else has any. -/
def children : Expr → List Expr
  | literal _ | identifier _ => []
  | call _ es => es

/-- The constant that an expression is, if it is one. -/
def literal? : Expr → Option Literal
  | literal v => some v
  | identifier _ | call _ _ => none

/-- The column that an expression names, if it is a name. -/
def identifier? : Expr → Option String
  | identifier x => some x
  | literal _ | call _ _ => none

/-- The function that an expression calls, as it was written, if it is a call. -/
def operator? : Expr → Option String
  | call f _ => some f
  | literal _ | identifier _ => none

/-- The canonical name of the function that an expression calls, if it is a call. -/
def canonicalOperator? (e : Expr) : Option String :=
  e.operator?.map canonicalName

/-- Whether an expression calls the function with this canonical name. -/
def isCallOf (name : String) (e : Expr) : Bool :=
  e.canonicalOperator? == some name

/-- The column that is the one and only operand of a call. -/
def onlyColumn? : Expr → Option String
  | call _ [identifier x] => some x
  | _ => none

/-- Calls another function on the same operands; what is no call stays as it is. -/
def rename (name : String) : Expr → Expr
  | call _ es => call name es
  | e => e

/-! ## Conditions -/

/-- What two expressions are joined by in a condition. -/
inductive Connective where
  /-- Both sides are equal. -/
  | equals
  /-- The sides differ. -/
  | notEquals
  /-- The left side is greater. -/
  | greaterThan
  /-- The left side is not less. -/
  | greaterThanOrEqual
  /-- The left side is less. -/
  | lessThan
  /-- The left side is not greater. -/
  | lessThanOrEqual
  /-- Both sides hold. -/
  | and
  /-- One of the sides holds. -/
  | or
deriving DecidableEq, Repr

/-- The function that a connective calls. -/
def Connective.name : Connective → String
  | equals => "equals"
  | notEquals => "not_equals"
  | greaterThan => "greater_than"
  | greaterThanOrEqual => "greater_than_or_equal"
  | lessThan => "less_than"
  | lessThanOrEqual => "less_than_or_equal"
  | and => "and"
  | or => "or"

/-- Joins two expressions. -/
def join (connective : Connective) (left right : Expr) : Expr :=
  call connective.name [left, right]

/-- The denial of a condition. -/
def not (e : Expr) : Expr :=
  call "not" [e]

end Expr

end QueryTuning
