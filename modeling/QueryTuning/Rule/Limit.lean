import QueryTuning.Policy.Basic
import QueryTuning.Rule.Basic

/-!
# Limits below the ceiling

After `Query.capLimit` a query has a limit, and that limit does not exceed the ceiling.

* `cappedLimit` : the limit that is kept.
* `Query.capLimit` : the query with that limit.
-/

namespace QueryTuning

/-- The limit that is kept of a given one; `standard` stands in where there is none. -/
def cappedLimit (ceiling standard : UInt64) (limit : Option UInt64) : UInt64 :=
  min (limit.getD standard) ceiling

/-- The limit that is kept does not exceed the ceiling. -/
theorem cappedLimit_le (ceiling standard : UInt64) (limit : Option UInt64) :
    cappedLimit ceiling standard limit ≤ ceiling :=
  Std.min_le_right

namespace Query

/-- Gives a query the limit that the ceiling lets it have. -/
def capLimit (ceiling : UInt64) (standard : UInt64 := standardLimit) (q : Query) :
    Adjusted Query :=
  let limit := some (cappedLimit ceiling standard q.limit)
  if q.limit = limit then .same q else .into { q with limit }

/-- Whatever the limit was, it is the capped one in the end. -/
theorem value_capLimit (ceiling standard : UInt64) (q : Query) :
    (q.capLimit ceiling standard).value
      = { q with limit := some (cappedLimit ceiling standard q.limit) } := by
  by_cases h : q.limit = some (cappedLimit ceiling standard q.limit)
  · simp [capLimit, ← h]
  · simp [capLimit, h]

/-- A query is changed exactly if it did not have the capped limit already. -/
theorem changed_capLimit (ceiling standard : UInt64) (q : Query) :
    (q.capLimit ceiling standard).changed = true
      ↔ q.limit ≠ some (cappedLimit ceiling standard q.limit) := by
  by_cases h : q.limit = some (cappedLimit ceiling standard q.limit)
  · simp [capLimit, ← h]
  · simp [capLimit, h]

end Query

end QueryTuning
