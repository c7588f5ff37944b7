import QueryTuning.Expr.Basic
import QueryTuning.Tree

/-!
# Expressions as text

`Expr.text` spells an expression as it stands in a query, and `Expr.tree` is the tree that is drawn
for it.
-/

namespace QueryTuning.Expr

/-- A name for itself, and a call as its function before the operands in parentheses. -/
def text (e : Expr) : String :=
  e.fold Literal.text id fun f operands => f ++ "(" ++ ", ".intercalate operands ++ ")"

@[simp] theorem text_literal (v : Literal) : text (.literal v) = v.text := rfl

@[simp] theorem text_identifier (x : String) : text (.identifier x) = x := rfl

@[simp] theorem text_call (f : String) (es : List Expr) :
    text (.call f es) = f ++ "(" ++ ", ".intercalate (es.map text) ++ ")" := by
  simp only [text, fold_call]
  rfl

/-- What a single node of an expression is called in a drawing. -/
def label : Expr → String
  | literal v => "Literal(" ++ v.text ++ ")"
  | identifier x => "Identifier(" ++ x ++ ")"
  | call f _ => "Function(" ++ f ++ ")"

/-- The tree of an expression: one node for each part, with the operands below a call. -/
def tree (e : Expr) : Tree :=
  e.fold (fun v => .node (label (.literal v)) []) (fun x => .node (label (.identifier x)) [])
    fun f trees => .node (label (.call f [])) trees

@[simp] theorem tree_literal (v : Literal) :
    tree (.literal v) = .node (label (.literal v)) [] := rfl

@[simp] theorem tree_identifier (x : String) :
    tree (.identifier x) = .node (label (.identifier x)) [] := rfl

@[simp] theorem tree_call (f : String) (es : List Expr) :
    tree (.call f es) = .node (label (.call f es)) (es.map tree) := by
  simp only [tree, fold_call]
  rfl

end QueryTuning.Expr
