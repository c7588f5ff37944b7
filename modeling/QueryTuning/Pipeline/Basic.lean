import QueryTuning.Query.Text
import QueryTuning.Rule.Builtin

/-!
# Pipelines

A `Pipeline` applies its rules in order, and does so again and again until no rule changes anything
or the passes are used up.

* `Pipeline.step` : one rule.
* `Pipeline.pass` : all rules, once.
* `Pipeline.run` : a bounded number of passes.
* `Pipeline.forTable` : the pipeline that a policy lays down for a table.
* `tune` : what becomes of a query under a policy.

What a run did is summed up in an `Outcome`, and outcomes of consecutive runs are joined by
`Outcome.andThen`.
-/

namespace QueryTuning

/-- The record of one application of a rule. -/
structure TraceEntry where
  /-- The name of the rule. -/
  rule : String
  /-- The query before, drawn. -/
  before : String
  /-- The query after, drawn. -/
  after : String
  /-- Whether the rule changed anything. -/
  changed : Bool := true
deriving DecidableEq, Repr

/-- What a run of a pipeline did. -/
structure Outcome where
  /-- The query at the end. -/
  query : Query
  /-- How many passes were made, the last one that changed nothing included. -/
  passes : Nat := 0
  /-- How many applications of a rule changed something. -/
  applied : Nat := 0
  /-- Those applications, if the pipeline keeps a trace. -/
  trace : List TraceEntry := []
deriving DecidableEq, Repr

namespace Outcome

/-- The outcome of two runs, the second of which starts where the first one ends. -/
def andThen (first second : Outcome) : Outcome where
  query := second.query
  passes := first.passes + second.passes
  applied := first.applied + second.applied
  trace := first.trace ++ second.trace

end Outcome

/-- Rules that are applied in order until nothing changes. -/
structure Pipeline where
  /-- The rules, first one first. -/
  rules : List Rule
  /-- The bound on the number of passes. -/
  maxPasses : Nat := 16
  /-- Whether a trace is kept. -/
  traced : Bool := false

namespace Pipeline

/-- Adds a rule behind all others. -/
def addRule (p : Pipeline) (rule : Rule) : Pipeline :=
  { p with rules := p.rules ++ [rule] }

/-- The names of the rules. -/
def ruleNames (p : Pipeline) : List String :=
  p.rules.map Rule.name

/-! ## Runs -/

/-- Applies one rule. -/
def step (p : Pipeline) (rule : Rule) (q : Query) : Except Error Outcome := do
  let result ← rule.apply q
  if result.changed then
    let entry := { rule := rule.name, before := q.explain, after := result.value.explain }
    return { query := result.value, applied := 1, trace := if p.traced then [entry] else [] }
  else
    return { query := result.value }

/-- Applies rules one after another. -/
def applyAll (p : Pipeline) : List Rule → Query → Except Error Outcome
  | [], q => .ok { query := q }
  | rule :: rules, q => do
    let first ← p.step rule q
    let rest ← p.applyAll rules first.query
    return first.andThen rest

/-- Applies every rule of the pipeline once. -/
def pass (p : Pipeline) (q : Query) : Except Error Outcome := do
  let outcome ← p.applyAll p.rules q
  return { outcome with passes := 1 }

/-- Makes up to `n` passes and stops after the first one that changes nothing. -/
def passes (p : Pipeline) : Nat → Query → Except Error Outcome
  | 0, q => .ok { query := q }
  | n + 1, q => do
    let first ← p.pass q
    if first.applied = 0 then
      return first
    else
      let rest ← p.passes n first.query
      return first.andThen rest

/-- Tunes a query until nothing changes any more, as far as the bound on the passes goes. A
    query that selects nothing is refused before any rule sees it. -/
def run (p : Pipeline) (q : Query) : Except Error Outcome := do
  q.validate
  p.passes p.maxPasses q

/-- Tunes a query in a single pass. -/
def runOnce (p : Pipeline) (q : Query) : Except Error Outcome := do
  q.validate
  p.pass q

/-! ## The pipeline of a policy -/

/-- The built-in rules that a policy lays down for a table. The approximate functions come last,
    because the other rules do not know them. -/
def rulesForTable (policy : Policy) (table : Table) : List BuiltinRule :=
  [.capLimit policy.ceiling policy.impliedLimit]
    ++ (if policy.segmentPartitioned || policy.multiValued then
          [.chooseCounts (.ofPolicy policy table)] else [])
    ++ (if policy.approximate then [.substitute] else [])

/-- The pipeline that a policy lays down for a table. -/
def forTable (policy : Policy) (table : Table) : Pipeline where
  rules := (rulesForTable policy table).map BuiltinRule.toRule

/-- The pipeline for a table that nothing is known about, with all settings as they are if nothing
    else is said. -/
def standard : Pipeline := forTable {} {}

end Pipeline

/-- Tunes a query on a table to a policy. -/
def tune (policy : Policy) (table : Table) (q : Query) : Except Error Query := do
  let outcome ← (Pipeline.forTable policy table).run q
  return outcome.query

end QueryTuning
