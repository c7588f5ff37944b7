import QueryTuning.Expr.Json
import QueryTuning.Query.Basic

/-!
# Queries in JSON

A query is a record of its clauses. A condition or a limit that a query does not have is null, and
when a query is read from an object, it may also be left out.
-/

namespace QueryTuning

namespace Direction

/-- The JSON value of a sort order. -/
def toJson : Direction → Json
  | ascending => .string "Ascending"
  | descending => .string "Descending"

/-- Reads a sort order. -/
def reader : Json.Reader Direction :=
  Json.Variant.reader [.bare "Ascending" ascending, .bare "Descending" descending]

end Direction

namespace SortKey

/-- The JSON value of a sort key. -/
def toJson (key : SortKey) : Json :=
  .object [("expr", key.expr.toJson), ("direction", key.direction.toJson)]

/-- A sort key of which not everything may have been read yet. -/
structure Draft where
  /-- What is compared. -/
  expr : Option Expr := none
  /-- Which values come first. -/
  direction : Option Direction := none

/-- The record of a sort key. -/
def format : Json.Record Draft SortKey where
  name := "OrderByItem"
  fields :=
    [.of "expr" (·.expr) (fun d e => { d with expr := some e }) Expr.reader,
     .of "direction" (·.direction) (fun d o => { d with direction := some o }) Direction.reader]
  start := {}
  finish d := do
    let expr ← Json.required "expr" d.expr
    let direction ← Json.required "direction" d.direction
    return { expr, direction }

/-- Reads a sort key. -/
def reader : Json.Reader SortKey := format.reader

end SortKey

namespace Query

/-- The JSON value of a query. -/
def toJson (q : Query) : Json :=
  .object
    [("select_list", .array (q.select.map Expr.toJson)),
     ("having", .optional Expr.toJson q.having),
     ("order_by", .array (q.orderBy.map SortKey.toJson)),
     ("limit", .optional (fun n => .nat n.toNat) q.limit)]

/-- A query of which not everything may have been read yet. -/
structure Draft where
  /-- What is selected. -/
  select : Option (List Expr) := none
  /-- The condition on groups. -/
  having : Option (Option Expr) := none
  /-- The sort keys. -/
  orderBy : Option (List SortKey) := none
  /-- The limit. -/
  limit : Option (Option UInt64) := none

/-- The record of a query. -/
def format : Json.Record Draft Query where
  name := "QueryEnvelope"
  fields :=
    [.of "select_list" (·.select) (fun d es => { d with select := some es })
       (Json.Reader.list Expr.reader),
     .of "having" (·.having) (fun d e => { d with having := some e })
       (Json.Reader.option Expr.reader),
     .of "order_by" (·.orderBy) (fun d keys => { d with orderBy := some keys })
       (Json.Reader.list SortKey.reader),
     .of "limit" (·.limit) (fun d n => { d with limit := some n })
       (Json.Reader.option Json.Reader.uint64)]
  start := {}
  finish d := do
    let select ← Json.required "select_list" d.select
    let orderBy ← Json.required "order_by" d.orderBy
    return { select, having := d.having.join, orderBy, limit := d.limit.join }

/-- Reads a query. -/
def reader : Json.Reader Query := format.reader

/-- Reads a query from a text, whether or not it selects anything. -/
def ofJson (text : String) : Except Error Query :=
  (Json.Reader.ofText reader text).mapError .json

end Query

end QueryTuning
