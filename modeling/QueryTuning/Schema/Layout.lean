import QueryTuning.Error
import QueryTuning.Schema.Json

/-!
# Schemas as brokers keep them

A broker keeps a schema as a `Layout`: three lists of columns, one for each role. The column lists
may be left out, and whether a dimension holds one value may be given as a truth value or as a
text. `Schema.ofLayout` makes a schema of it, in which no column may be declared twice.

* `Layout.columns` : the columns in the order in which they are declared.
* `Schema.ofLayout` : the schema, unless a column is repeated.
* `Schema.ofJson` : reads a layout from a text and makes a schema of it.
-/

namespace QueryTuning

/-! ## Flags -/

/-- The truth value that a text spells, in whatever case. -/
def flagOfText (text : String) : Except Json.Error Bool :=
  let lower := String.ofList (text.toList.map Char.toLower)
  if lower = "true" then .ok true
  else if lower = "false" then .ok false
  else Json.refuse (.flagText lower)

/-- Reads a truth value that may be spelled as a text. The whole value is read before it is looked
    at, so what is wrong inside of it is told first. -/
def flagReader : Json.Reader Bool := fun room d => do
  Json.checkFault (d.strictFault? room)
  match d with
  | .bool b => return b
  | .string q => flagOfText (← Json.readQuoted q)
  | _ => Json.refuse .noFlag

/-! ## Layouts -/

/-- A column in a list of a layout. -/
structure LayoutColumn where
  /-- The name. -/
  name : String
  /-- The type of its values. -/
  dataType : DataType
  /-- Whether a row holds exactly one value; this counts for dimensions only. -/
  singleValued : Bool := true
deriving DecidableEq, Repr

namespace LayoutColumn

/-- A column of which not everything may have been read yet. -/
structure Draft where
  /-- The name. -/
  name : Option String := none
  /-- The type of its values. -/
  dataType : Option DataType := none
  /-- Whether a row holds exactly one value. -/
  singleValued : Option Bool := none

/-- The record of a column. -/
def format : Json.Record Draft LayoutColumn where
  name := "RawFieldSpec"
  fields :=
    [.of "name" (·.name) (fun d s => { d with name := some s }) Json.Reader.string,
     .of "dataType" (·.dataType) (fun d t => { d with dataType := some t }) DataType.reader,
     .of "singleValueField" (·.singleValued) (fun d b => { d with singleValued := some b })
       flagReader]
  needed := 2
  start := {}
  finish d := do
    let name ← Json.required "name" d.name
    let dataType ← Json.required "dataType" d.dataType
    return { name, dataType, singleValued := d.singleValued.getD true }

/-- Reads a column. -/
def reader : Json.Reader LayoutColumn := format.reader

/-- The column of a schema. Only a dimension may hold several values in a row. -/
def column (kind : ColumnKind) (c : LayoutColumn) : Column where
  name := c.name
  dataType := c.dataType
  singleValued := kind != .dimension || c.singleValued
  kind

end LayoutColumn

/-- A schema as a broker keeps it. -/
structure Layout where
  /-- The name of the schema. -/
  name : String
  /-- The dimensions. -/
  dimensions : List LayoutColumn := []
  /-- The metrics. -/
  metrics : List LayoutColumn := []
  /-- The points in time. -/
  dateTimes : List LayoutColumn := []
deriving DecidableEq, Repr

namespace Layout

/-- A layout of which not everything may have been read yet. -/
structure Draft where
  /-- The name of the schema. -/
  name : Option String := none
  /-- The dimensions. -/
  dimensions : Option (List LayoutColumn) := none
  /-- The metrics. -/
  metrics : Option (List LayoutColumn) := none
  /-- The points in time. -/
  dateTimes : Option (List LayoutColumn) := none

/-- The record of a layout. -/
def format : Json.Record Draft Layout where
  name := "RawSchema"
  fields :=
    [.of "schemaName" (·.name) (fun d s => { d with name := some s }) Json.Reader.string,
     .of "dimensionFieldSpecs" (·.dimensions) (fun d cs => { d with dimensions := some cs })
       (Json.Reader.list LayoutColumn.reader),
     .of "metricFieldSpecs" (·.metrics) (fun d cs => { d with metrics := some cs })
       (Json.Reader.list LayoutColumn.reader),
     .of "dateTimeFieldSpecs" (·.dateTimes) (fun d cs => { d with dateTimes := some cs })
       (Json.Reader.list LayoutColumn.reader)]
  needed := 1
  start := {}
  finish d := do
    let name ← Json.required "schemaName" d.name
    return { name, dimensions := d.dimensions.getD [], metrics := d.metrics.getD [],
             dateTimes := d.dateTimes.getD [] }

/-- Reads a layout. -/
def reader : Json.Reader Layout := format.reader

/-- The columns in the order in which they are declared: dimensions, metrics, points in time. -/
def columns (l : Layout) : List Column :=
  l.dimensions.map (LayoutColumn.column .dimension) ++ l.metrics.map (LayoutColumn.column .metric)
    ++ l.dateTimes.map (LayoutColumn.column .dateTime)

end Layout

namespace Schema

/-- Declares a column that must not be declared yet. -/
def addNew (s : Schema) (c : Column) : Except Error Schema :=
  if (s.column? c.name).isSome then .error (.repeatedColumn c.name s.name) else .ok (s.add c)

/-- The schema of a layout. -/
def ofLayout (l : Layout) : Except Error Schema :=
  l.columns.foldlM addNew { name := l.name }

/-- Reads a layout from a text and makes a schema of it. -/
def ofJson (text : String) : Except Error Schema := do
  let l ← (Json.Reader.ofText Layout.reader text).mapError .json
  ofLayout l

end Schema

end QueryTuning
