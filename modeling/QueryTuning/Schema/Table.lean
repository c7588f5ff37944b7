import QueryTuning.Schema.Basic
import Std.Data.ExtTreeSet

/-!
# What is known about a table

A `Table` is the snapshot of a table that the rules look at: the columns that its segments are
partitioned by, and its schema where one is known.
-/

namespace QueryTuning

/-- What is known about a table. -/
structure Table where
  /-- The name of the table. -/
  name : String := ""
  /-- The columns that the segments are partitioned by: no value of such a column occurs in two
      segments. -/
  partitionColumns : Std.ExtTreeSet String := ∅
  /-- The schema, if it is known. -/
  schema : Option Schema := none

namespace Table

/-- Whether the segments are partitioned by a column. -/
def isPartitionColumn (t : Table) (column : String) : Bool :=
  t.partitionColumns.contains column

/-- Whether a row may hold several values in a column. Without a schema none is known to. -/
def isMultiValued (t : Table) (column : String) : Bool :=
  match t.schema with
  | some s => s.isMultiValued column
  | none => false

end Table

end QueryTuning
