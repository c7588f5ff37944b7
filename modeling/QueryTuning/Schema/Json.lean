import QueryTuning.Json.Basic
import QueryTuning.Json.Record
import QueryTuning.Json.Variant
import QueryTuning.Schema.Basic

/-!
# Schemas in JSON

A schema is a record of its name and an object with the columns. The columns are written in the
order of the names that they are looked up by; a column has its own name as well.
-/

namespace QueryTuning

namespace DataType

/-- The JSON value of a data type. -/
def toJson (t : DataType) : Json := .string t.name

/-- Reads a data type. -/
def reader : Json.Reader DataType :=
  Json.Variant.reader (all.map fun t => .bare t.name t)

end DataType

namespace ColumnKind

/-- The JSON value of a role. -/
def toJson : ColumnKind → Json
  | dimension => .string "Dimension"
  | metric => .string "Metric"
  | dateTime => .string "DateTime"

/-- Reads a role. -/
def reader : Json.Reader ColumnKind :=
  Json.Variant.reader
    [.bare "Dimension" dimension, .bare "Metric" metric, .bare "DateTime" dateTime]

end ColumnKind

namespace Cardinality

/-- The JSON value of a cardinality. -/
def toJson : Cardinality → Json
  | single => .string "SingleValued"
  | multiple => .string "MultiValued"

/-- Reads a cardinality. -/
def reader : Json.Reader Cardinality :=
  Json.Variant.reader [.bare "SingleValued" single, .bare "MultiValued" multiple]

end Cardinality

namespace Column

/-- The JSON value of a column. -/
def toJson (c : Column) : Json :=
  .object
    [("name", .string c.name),
     ("data_type", c.dataType.toJson),
     ("single_value_field", .bool c.singleValued),
     ("kind", c.kind.toJson)]

/-- A column of which not everything may have been read yet. -/
structure Draft where
  /-- The name. -/
  name : Option String := none
  /-- The type of its values. -/
  dataType : Option DataType := none
  /-- Whether a row holds exactly one value. -/
  singleValued : Option Bool := none
  /-- The role in the table. -/
  kind : Option ColumnKind := none

/-- The record of a column. -/
def format : Json.Record Draft Column where
  name := "FieldSpec"
  fields :=
    [.of "name" (·.name) (fun d s => { d with name := some s }) Json.Reader.string,
     .of "data_type" (·.dataType) (fun d t => { d with dataType := some t }) DataType.reader,
     .of "single_value_field" (·.singleValued) (fun d b => { d with singleValued := some b })
       Json.Reader.bool,
     .of "kind" (·.kind) (fun d k => { d with kind := some k }) ColumnKind.reader]
  start := {}
  finish d := do
    let name ← Json.required "name" d.name
    let dataType ← Json.required "data_type" d.dataType
    let singleValued ← Json.required "single_value_field" d.singleValued
    let kind ← Json.required "kind" d.kind
    return { name, dataType, singleValued, kind }

/-- Reads a column. -/
def reader : Json.Reader Column := format.reader

end Column

namespace Schema

/-- The JSON value of a schema. -/
def toJson (s : Schema) : Json :=
  .object
    [("schema_name", .string s.name),
     ("fields", .object (s.columns.toList.map fun (name, c) => (name, c.toJson)))]

/-- A schema of which not everything may have been read yet. -/
structure Draft where
  /-- The name. -/
  name : Option String := none
  /-- The columns. -/
  columns : Option (Std.ExtTreeMap String Column) := none

/-- The record of a schema. -/
def format : Json.Record Draft Schema where
  name := "TableSchema"
  fields :=
    [.of "schema_name" (·.name) (fun d s => { d with name := some s }) Json.Reader.string,
     .of "fields" (·.columns) (fun d cs => { d with columns := some cs })
       (Json.Reader.map Column.reader)]
  start := {}
  finish d := do
    let name ← Json.required "schema_name" d.name
    let columns ← Json.required "fields" d.columns
    return { name, columns }

/-- Reads a schema. -/
def reader : Json.Reader Schema := format.reader

end Schema

end QueryTuning
