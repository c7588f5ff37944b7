import QueryTuning.Json.Basic
import QueryTuning.Json.Record
import QueryTuning.Json.Variant
import QueryTuning.Policy.Basic

/-!
# Policies in JSON

A policy is a record of its settings, and a setting that is left out has its standard value. The
settings of a broker are a record that has the policy as its only field, and may lack it.

* `Policy.toJson`, `Policy.reader` : the record of a policy.
* `Policy.brokerJson`, `Policy.brokerReader` : the record around it.
* `Policy.ofJson` : reads the settings of a broker and checks the policy.
-/

namespace QueryTuning

namespace Precedence

/-- The JSON value of a precedence. -/
def toJson : Precedence → Json
  | multiValue => .string "multi_value"
  | segmentPartitioned => .string "segment_partitioned"

/-- Reads a precedence. -/
def reader : Json.Reader Precedence :=
  Json.Variant.reader
    [.bare "multi_value" multiValue, .bare "segment_partitioned" segmentPartitioned]

end Precedence

namespace Policy

/-- The JSON value of a policy. -/
def toJson (p : Policy) : Json :=
  .object
    [("query_limit_ceiling", .nat p.ceiling.toNat),
     ("default_limit", .nat p.defaultLimit.toNat),
     ("use_approximate_function", .bool p.approximate),
     ("segment_partitioned_distinct_count", .bool p.segmentPartitioned),
     ("distinct_multi_valued", .bool p.multiValued),
     ("distinct_count_precedence", p.precedence.toJson)]

/-- A policy of which not everything may have been read yet. -/
structure Draft where
  /-- The highest limit. -/
  ceiling : Option UInt64 := none
  /-- The limit of a query that has none. -/
  defaultLimit : Option UInt64 := none
  /-- Whether approximate aggregations are allowed. -/
  approximate : Option Bool := none
  /-- Whether distinct values may be counted segment by segment. -/
  segmentPartitioned : Option Bool := none
  /-- Whether the distinct count for several values in a row may be chosen. -/
  multiValued : Option Bool := none
  /-- Which variant of a distinct count wins. -/
  precedence : Option Precedence := none

/-- The policy of a draft. What is missing has its standard value. -/
def ofDraft (d : Draft) : Policy :=
  let standard : Policy := {}
  { ceiling := d.ceiling.getD standard.ceiling
    defaultLimit := d.defaultLimit.getD standard.defaultLimit
    approximate := d.approximate.getD standard.approximate
    segmentPartitioned := d.segmentPartitioned.getD standard.segmentPartitioned
    multiValued := d.multiValued.getD standard.multiValued
    precedence := d.precedence.getD standard.precedence }

/-- The record of a policy. -/
def format : Json.Record Draft Policy where
  name := "RewriteConfig"
  fields :=
    [.of "query_limit_ceiling" (·.ceiling) (fun d n => { d with ceiling := some n })
       Json.Reader.uint64,
     .of "default_limit" (·.defaultLimit) (fun d n => { d with defaultLimit := some n })
       Json.Reader.uint64,
     .of "use_approximate_function" (·.approximate)
       (fun d b => { d with approximate := some b }) Json.Reader.bool,
     .of "segment_partitioned_distinct_count" (·.segmentPartitioned)
       (fun d b => { d with segmentPartitioned := some b }) Json.Reader.bool,
     .of "distinct_multi_valued" (·.multiValued)
       (fun d b => { d with multiValued := some b }) Json.Reader.bool,
     .of "distinct_count_precedence" (·.precedence)
       (fun d p => { d with precedence := some p }) Precedence.reader]
  needed := 0
  start := {}
  finish d := .ok (ofDraft d)

/-- Reads a policy. -/
def reader : Json.Reader Policy := format.reader

/-! ## The settings of a broker -/

/-- The JSON value of the settings of a broker. -/
def brokerJson (p : Policy) : Json := .object [("rewrite", p.toJson)]

/-- The record of the settings of a broker. -/
def brokerFormat : Json.Record (Option Policy) Policy where
  name := "TrellisConfig"
  fields := [.of "rewrite" id (fun _ p => some p) reader]
  needed := 0
  start := none
  finish d := .ok (d.getD {})

/-- Reads the settings of a broker, without checking the policy. -/
def brokerReader : Json.Reader Policy := brokerFormat.reader

/-- Reads the settings of a broker from a text and checks the policy. -/
def ofJson (text : String) : Except Error Policy := do
  let p ← (Json.Reader.ofText brokerReader text).mapError .json
  p.validate
  return p

end Policy

end QueryTuning
