import QueryTuning.Expr.Basic

/-!
# Walking over an expression

* `Expr.walk` : all parts of an expression, each call before its operands.
* `Expr.depth` : how deep calls are nested.
* `Expr.containsCall` : whether a function is called anywhere.
-/

namespace QueryTuning.Expr

mutual

/-- The expression and everything inside of it: a call comes before its operands, and operands
    come from left to right. -/
def walk : Expr → List Expr
  | literal v => [literal v]
  | identifier x => [identifier x]
  | call f es => call f es :: walkAll es

/-- The walks over the expressions of a list, one after another. -/
def walkAll : List Expr → List Expr
  | [] => []
  | e :: es => walk e ++ walkAll es

end

theorem walkAll_eq_flatMap (es : List Expr) : walkAll es = es.flatMap walk := by
  induction es with
  | nil => rfl
  | cons e es ih => simp [walkAll, ih]

@[simp] theorem walk_literal (v : Literal) : walk (.literal v) = [.literal v] := rfl

@[simp] theorem walk_identifier (x : String) : walk (.identifier x) = [.identifier x] := rfl

@[simp] theorem walk_call (f : String) (es : List Expr) :
    walk (.call f es) = .call f es :: es.flatMap walk := by
  simp [walk, walkAll_eq_flatMap]

/-- The greatest of some numbers, zero if there are none. -/
def greatest (ns : List Nat) : Nat := ns.foldr max 0

/-- One for a constant and a name, and one more than its deepest operand for a call. -/
def depth (e : Expr) : Nat :=
  e.fold (fun _ => 1) (fun _ => 1) (fun _ depths => 1 + greatest depths)

@[simp] theorem depth_literal (v : Literal) : depth (.literal v) = 1 := rfl

@[simp] theorem depth_identifier (x : String) : depth (.identifier x) = 1 := rfl

@[simp] theorem depth_call (f : String) (es : List Expr) :
    depth (.call f es) = 1 + greatest (es.map depth) := by
  simp only [depth, fold_call]
  rfl

/-- Whether the function with this canonical name is called anywhere in an expression. -/
def containsCall (name : String) (e : Expr) : Bool :=
  e.walk.any (isCallOf name)

end QueryTuning.Expr
