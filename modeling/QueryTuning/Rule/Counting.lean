import QueryTuning.Policy.Basic
import QueryTuning.Rule.Basic
import QueryTuning.Schema.Table
import QueryTuning.Substitutes

/-!
# Ways to count distinct values

A distinct count of a column that is selected as it is can be computed in a cheaper or a more
fitting way, if the layout of the table allows it. What is nested inside another expression, and
what stands in a condition or a sort key, is left alone.

* `Expr.countedColumn?` : recognises a distinct count.
* `Query.chooseCounts` : renames the distinct counts by a choice made for each column.
* `Query.countBySegment` : the choice for columns that segments are partitioned by.
* `Query.countMultiValued` : the choice for columns with several values in a row.
* `CountingPlan` : both together, with a precedence where both fit.
-/

namespace QueryTuning

namespace Expr

/-- The column whose distinct values an expression counts, if it does just that. -/
def countedColumn? (e : Expr) : Option String :=
  if e.isCallOf FunctionName.distinctCount then e.onlyColumn? else none

/-- Renames a distinct count to the function that is chosen for its column. -/
def chooseCount (choose : String → Option String) (e : Expr) : Adjusted Expr :=
  match e.countedColumn?.bind choose with
  | some target => .into (e.rename target)
  | none => .same e

end Expr

namespace Query

/-- Renames the distinct counts that are selected. -/
def chooseCounts (choose : String → Option String) (q : Query) : Adjusted Query :=
  let select := Adjusted.ofList (q.select.map (Expr.chooseCount choose))
  ⟨{ q with select := select.value }, select.changed⟩

/-- Every expression that is selected keeps its place. -/
theorem value_chooseCounts (choose : String → Option String) (q : Query) :
    (q.chooseCounts choose).value
      = { q with select := q.select.map fun e => (e.chooseCount choose).value } := by
  simp [chooseCounts, Function.comp_def]

/-- The function for a column that is among those that segments are partitioned by. -/
def segmentChoice (columns : Std.ExtTreeSet String) (column : String) : Option String :=
  if columns.contains column then some FunctionName.segmentPartitionedDistinctCount else none

/-- Counts segment by segment where segments are partitioned by the column. -/
def countBySegment (columns : Std.ExtTreeSet String) (q : Query) : Adjusted Query :=
  q.chooseCounts (segmentChoice columns)

/-- The function for a column that is declared to hold several values in a row. -/
def multiValuedChoice (schema : Schema) (column : String) : Option String :=
  if schema.isMultiValued column then some FunctionName.distinctCountMV else none

/-- Counts all values of a row where the column may hold several. -/
def countMultiValued (schema : Schema) (q : Query) : Adjusted Query :=
  q.chooseCounts (multiValuedChoice schema)

end Query

/-- How a way to count is chosen from what is known about a table. -/
structure CountingPlan where
  /-- What is known about the table. -/
  table : Table
  /-- Whether the count by segments may be chosen. -/
  segmentPartitioned : Bool := true
  /-- Whether the count for several values in a row may be chosen. -/
  multiValued : Bool := true
  /-- Which of them wins where both fit. -/
  precedence : Precedence := .multiValue

namespace CountingPlan

/-- The plan that a policy lays down for a table. -/
def ofPolicy (p : Policy) (table : Table) : CountingPlan where
  table
  segmentPartitioned := p.segmentPartitioned
  multiValued := p.multiValued
  precedence := p.precedence

/-- The function that counts the distinct values of a column, if it is a special one. -/
def choose (plan : CountingPlan) (column : String) : Option String :=
  let bySegment := plan.segmentPartitioned && plan.table.isPartitionColumn column
  let multiValued := plan.multiValued && plan.table.isMultiValued column
  match bySegment, multiValued, plan.precedence with
  | true, true, .multiValue => some FunctionName.distinctCountMV
  | true, true, .segmentPartitioned => some FunctionName.segmentPartitionedDistinctCount
  | true, false, _ => some FunctionName.segmentPartitionedDistinctCount
  | false, true, _ => some FunctionName.distinctCountMV
  | false, false, _ => none

/-- Renames the distinct counts that are selected as the plan says. -/
def adjust (plan : CountingPlan) (q : Query) : Adjusted Query :=
  q.chooseCounts plan.choose

end CountingPlan

end QueryTuning
