import QueryTuning.Pipeline.Basic

/-!
# Reports on a run

`Outcome.report` tells what a run did: a line with the totals, and below it every application of a
rule that changed something, with the query before and after.
-/

namespace QueryTuning

/-- The section of a report for the entry with this number. -/
def TraceEntry.report (number : Nat) (entry : TraceEntry) : String :=
  "\n--- Rule " ++ toString number ++ " applied: " ++ entry.rule ++ " ---\n"
    ++ "Before:\n" ++ entry.before ++ "\nAfter:\n" ++ entry.after

namespace Outcome

/-- The line with the totals of a run. -/
def totals (o : Outcome) : String :=
  "Rewrite completed in " ++ toString o.passes ++ " iterations, "
    ++ toString o.applied ++ " rules applied\n"

/-- The report on a run. Only what changed something gets a number and a section. -/
def report (o : Outcome) : String :=
  if o.trace.isEmpty then
    o.totals ++ "  (no trace available)\n"
  else
    let changes := o.trace.filter TraceEntry.changed
    o.totals ++ String.join ((changes.zipIdx 1).map fun (entry, n) => entry.report n)

end Outcome

end QueryTuning
