import QueryTuning.Error
import QueryTuning.Expr.Basic

/-!
# Queries

A `Query` is what the rules work on: the expressions that are selected, the condition on groups,
the sort keys and the limit on rows.

* `Query.roots` : all its expressions, in order.
* `Query.validate` : a query has to select something.
-/

namespace QueryTuning

/-- The order of a sort key. -/
inductive Direction where
  /-- Small values first. -/
  | ascending
  /-- Large values first. -/
  | descending
deriving DecidableEq, Repr

/-- An expression that rows are sorted by. -/
structure SortKey where
  /-- What is compared. -/
  expr : Expr
  /-- Which values come first. -/
  direction : Direction := .ascending
deriving DecidableEq, Repr

/-- A query on a table. -/
structure Query where
  /-- What is selected. -/
  select : List Expr
  /-- The condition on groups, if there is one. -/
  having : Option Expr := none
  /-- The sort keys, most significant one first. -/
  orderBy : List SortKey := []
  /-- The limit on rows, if there is one. -/
  limit : Option UInt64 := none
deriving DecidableEq, Repr

namespace Query

/-- Refuses a query that selects nothing. -/
def validate (q : Query) : Except Error Unit :=
  Error.ensure (!q.select.isEmpty) .emptySelect

/-- The query that selects these expressions and nothing else. -/
def ofSelect (select : List Expr) : Except Error Query := do
  let q : Query := { select }
  q.validate
  return q

/-- All expressions of a query: what is selected, then the condition, then the sort keys. -/
def roots (q : Query) : List Expr :=
  q.select ++ q.having.toList ++ q.orderBy.map SortKey.expr

/-- Replaces every expression of a query by a function of it. -/
def mapRoots (f : Expr → Expr) (q : Query) : Query where
  select := q.select.map f
  having := q.having.map f
  orderBy := q.orderBy.map fun key => { key with expr := f key.expr }
  limit := q.limit

/-- The roots of the new query are the new roots. -/
theorem roots_mapRoots (f : Expr → Expr) (q : Query) :
    (q.mapRoots f).roots = q.roots.map f := by
  cases h : q.having <;> simp [roots, mapRoots, h]

/-- Adds a sort key after all others. -/
def addSortKey (key : SortKey) (q : Query) : Query :=
  { q with orderBy := q.orderBy ++ [key] }

end Query

end QueryTuning
