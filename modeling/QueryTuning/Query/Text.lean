import QueryTuning.Expr.Text
import QueryTuning.Query.Basic
import QueryTuning.Text.Lines

/-!
# Queries as text

`Query.text` spells a query in one line, and `Query.explain` draws the tree of each of its
expressions under the clause that it belongs to.
-/

namespace QueryTuning

/-- The word for a sort order. -/
def Direction.text : Direction → String
  | ascending => "ASC"
  | descending => "DESC"

/-- An expression before its sort order. -/
def SortKey.text (key : SortKey) : String :=
  key.expr.text ++ " " ++ key.direction.text

/-- A limit in decimal digits. -/
def limitText (limit : UInt64) : String :=
  (Numeral.ofNat limit.toNat).text

namespace Query

/-- The condition on groups, behind its word. -/
def havingText (q : Query) : String :=
  match q.having with
  | some e => " HAVING " ++ e.text
  | none => ""

/-- The sort keys, behind their words. -/
def orderByText (q : Query) : String :=
  match q.orderBy with
  | [] => ""
  | keys => " ORDER BY " ++ ", ".intercalate (keys.map SortKey.text)

/-- The limit, behind its word. -/
def limitClause (q : Query) : String :=
  match q.limit with
  | some n => " LIMIT " ++ limitText n
  | none => ""

/-- The query in one line. A clause that the query does not have is left out. -/
def text (q : Query) : String :=
  "SELECT " ++ ", ".intercalate (q.select.map Expr.text)
    ++ q.havingText ++ q.orderByText ++ q.limitClause

/-! ## Drawing -/

/-- The drawing of an expression behind a margin. -/
def block (margin : String) (e : Expr) : String :=
  Text.indent margin e.tree.draw ++ "\n"

/-- The drawing of a sort key: its order, and its expression below. -/
def keyBlock (key : SortKey) : String :=
  "  " ++ key.direction.text ++ "\n" ++ block "    " key.expr

/-- The drawings of the expressions that are selected. -/
def explainSelect (q : Query) : String :=
  "Select\n" ++ String.join (q.select.map (block "  "))

/-- The drawing of the condition on groups. -/
def explainHaving (q : Query) : String :=
  match q.having with
  | some e => "Having\n" ++ block "  " e
  | none => ""

/-- The drawings of the sort keys. -/
def explainOrderBy (q : Query) : String :=
  match q.orderBy with
  | [] => ""
  | keys => "OrderBy\n" ++ String.join (keys.map keyBlock)

/-- The line for the limit, which is there in any case. -/
def explainLimit (q : Query) : String :=
  match q.limit with
  | some n => "Limit " ++ limitText n ++ "\n"
  | none => "Limit (unset)\n"

/-- The clauses of a query, each with the drawings of its expressions. -/
def explain (q : Query) : String :=
  q.explainSelect ++ q.explainHaving ++ q.explainOrderBy ++ q.explainLimit

end Query

end QueryTuning
