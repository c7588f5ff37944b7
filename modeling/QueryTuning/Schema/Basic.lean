import QueryTuning.Schema.Column
import Std.Data.ExtTreeMap

/-!
# Schemas

A `Schema` holds the columns of a table by name. Two schemas are equal exactly if they have the
same name and the same column under every name, whatever the order in which columns were added.

* `Schema.add` : declares a column, in place of an earlier one of the same name.
* `Schema.column?` : the column of a name.
* `Schema.isMultiValued` : whether a column is declared to hold several values in a row.
-/

namespace QueryTuning

/-- The columns of a table. -/
structure Schema where
  /-- The name of the schema. -/
  name : String
  /-- The columns, each under the name that it is looked up by. -/
  columns : Std.ExtTreeMap String Column := ∅

namespace Schema

/-- Declares a column under its own name. -/
def add (s : Schema) (c : Column) : Schema :=
  { s with columns := s.columns.insert c.name c }

/-- Declares columns one after another. -/
def addAll (s : Schema) (cs : List Column) : Schema :=
  cs.foldl add s

/-- The column that is declared under a name. -/
def column? (s : Schema) (name : String) : Option Column :=
  s.columns[name]?

/-- A column is found under its name as soon as it is added, and nothing else moves. -/
theorem column?_add (s : Schema) (c : Column) (name : String) :
    (s.add c).column? name = if c.name = name then some c else s.column? name := by
  simp [column?, add, Std.ExtTreeMap.getElem?_insert]

/-- How many values a row holds in a column; a column that is not declared counts as holding
    one. -/
def cardinality (s : Schema) (name : String) : Cardinality :=
  match s.column? name with
  | some c => c.cardinality
  | none => .single

/-- Whether a row may hold several values in a column. -/
def isMultiValued (s : Schema) (name : String) : Bool :=
  s.cardinality name == .multiple

/-- How many columns there are. -/
def size (s : Schema) : Nat := s.columns.size

/-- Whether there is no column at all. -/
def isEmpty (s : Schema) : Bool := s.columns.isEmpty

end Schema

end QueryTuning
