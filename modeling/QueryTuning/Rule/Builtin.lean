import QueryTuning.Rule.Counting
import QueryTuning.Rule.Limit
import QueryTuning.Rule.Substitute

/-!
# Built-in rules

A `BuiltinRule` is one of the rules that the library brings along, with its parameters. None of
them ever refuses a query: `BuiltinRule.adjust` is total, and `BuiltinRule.toRule` makes it a rule
of a pipeline.
-/

namespace QueryTuning

/-- A rule of the library. -/
inductive BuiltinRule where
  /-- Keeps the limit below a ceiling. -/
  | capLimit (ceiling : UInt64) (standard : UInt64 := standardLimit)
  /-- Counts distinct values segment by segment. -/
  | countBySegment (columns : Std.ExtTreeSet String)
  /-- Counts distinct values of columns with several values in a row. -/
  | countMultiValued (schema : Schema)
  /-- Chooses a way to count from what is known about the table. -/
  | chooseCounts (plan : CountingPlan)
  /-- Puts substitutes in the place of functions. -/
  | substitute (substitutes : Substitutes := .approximate)

namespace BuiltinRule

/-- The name of a rule. -/
def name : BuiltinRule → String
  | capLimit _ _ => "LimitClamp"
  | countBySegment _ => "SegmentPartitionedDistinctCount"
  | countMultiValued _ => "MultiValueDistinctCount"
  | chooseCounts _ => "DistinctCountStrategy"
  | substitute _ => "ApproximateFunctions"

/-- What a rule is for. -/
def description : BuiltinRule → String
  | capLimit _ _ => "Clamp the query limit to the broker ceiling"
  | countBySegment _ =>
    "Count distinct values per segment when the column is a partition column"
  | countMultiValued _ => "Use the multi-valued distinct count for multi-valued columns"
  | chooseCounts _ =>
    "Pick the segment-partitioned or multi-valued distinct count from table metadata"
  | substitute _ => "Substitute approximate implementations for exact aggregations"

/-- What a rule makes of a query. -/
def adjust : BuiltinRule → Query → Adjusted Query
  | capLimit ceiling standard, q => q.capLimit ceiling standard
  | countBySegment columns, q => q.countBySegment columns
  | countMultiValued schema, q => q.countMultiValued schema
  | chooseCounts plan, q => plan.adjust q
  | substitute substitutes, q => q.substitute substitutes

/-- A built-in rule as a rule of a pipeline. -/
def toRule (rule : BuiltinRule) : Rule where
  name := rule.name
  description := rule.description
  apply q := .ok (rule.adjust q)

end BuiltinRule

end QueryTuning
