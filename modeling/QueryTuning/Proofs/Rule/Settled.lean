import QueryTuning.Proofs.Pipeline.Pass
import QueryTuning.Proofs.Rule.Exact
import QueryTuning.Proofs.Substitutes.Stable

/-!
# Rules that have settled

A rule has settled on a query if it changes nothing of it. Rules feed each other, so it has to be
seen that no rule unsettles another one: a distinct count that was renamed never comes back, the
approximate aggregations leave no distinct count behind, and a limit only ever goes down.

* `BuiltinRule.Settled` : the rule changes nothing.
* `BuiltinRule.settled_adjust_self` : a rule has settled on its own result.
* `BuiltinRule.Settled.adjust` : a rule that has settled stays so, whatever rule comes next.
-/

namespace QueryTuning

/-! ## No distinct count is left -/

namespace Substitutes

/-- Behind the approximate aggregations nothing counts a column any more. -/
theorem countedColumn?_approximate (e : Expr) :
    (approximate.substitute e).value.countedColumn? = none := by
  cases e with
  | literal v => rfl
  | identifier x => rfl
  | call f es =>
    rw [value_substitute_call]
    apply Expr.countedColumn?_of_ne
    cases hnew : approximate.lookup f with
    | none =>
      -- A distinct count would have had a substitute.
      show canonicalName f ≠ FunctionName.distinctCount
      intro heq
      rw [lookup_distinctCount heq] at hnew
      cases hnew
    | some new =>
      have hmem : new.target ∈ approximateTargets := target_mem_approximateTargets hnew
      exact (lookup_of_mem_approximateTargets _ hmem).2

/-- The approximate aggregations change whatever counts a column. -/
theorem countedColumn?_of_unchanged {e : Expr} (h : (approximate.substitute e).changed = false) :
    e.countedColumn? = none := by
  rw [← countedColumn?_approximate e, (exact_substitute approximate e).value_eq h]

end Substitutes

/-! ## Settling -/

namespace BuiltinRule

/-- A rule **knows approximate aggregations only** if it brings no other substitutes. -/
def Approximate (r : BuiltinRule) : Prop :=
  ∀ s, r = .substitute s → s = .approximate

/-- A rule has **settled** on a query if it changes nothing of it. -/
def Settled (r : BuiltinRule) (q : Query) : Prop :=
  (r.adjust q).changed = false

/-- A rule that has settled is quiet. -/
theorem Settled.quiet {r : BuiltinRule} {q : Query} (h : r.Settled q) : r.toRule.Quiet q :=
  congrArg Except.ok (adjust_eq_same h)

/-- A rule that renames distinct counts has settled where it has nothing left to choose. -/
theorem settled_iff_of_isCounting {r : BuiltinRule} (h : r.isCounting) {q : Query} :
    r.Settled q ↔ ∀ e ∈ q.select, e.countedColumn?.bind r.choice = none := by
  rw [Settled, adjust_eq_chooseCounts h, Query.changed_chooseCounts_eq_false_iff]

/-- A rule that renames distinct counts keeps the limit. -/
theorem limit_adjust_of_isCounting {r : BuiltinRule} (h : r.isCounting) (q : Query) :
    (r.adjust q).value.limit = q.limit := by
  rw [adjust_eq_chooseCounts h, Query.value_chooseCounts]

/-- **A rule has settled on its own result.** -/
theorem settled_adjust_self {r : BuiltinRule} (happrox : r.Approximate) (q : Query) :
    r.Settled (r.adjust q).value := by
  rcases r.kinds with ⟨ceiling, standard, rfl⟩ | hcount | ⟨s, rfl⟩
  · -- The limit does not exceed the ceiling any more.
    have hlimit : ((capLimit ceiling standard).adjust q).value.limit
        = some (cappedLimit ceiling standard q.limit) := by
      rw [adjust, Query.value_capLimit]
    exact (Query.changed_capLimit_eq_false_iff ceiling standard _).mpr
      ⟨_, hlimit, cappedLimit_le ceiling standard q.limit⟩
  · -- What was chosen for is renamed, and for the rest nothing is chosen.
    rw [settled_iff_of_isCounting hcount]
    intro e' he'
    rw [adjust_eq_chooseCounts hcount, Query.value_chooseCounts] at he'
    obtain ⟨e, -, rfl⟩ := List.mem_map.mp he'
    exact Expr.bind_countedColumn?_chooseCount r.finalChoice id
  · -- The approximate aggregations are stable.
    obtain rfl : s = .approximate := happrox s rfl
    refine (Query.changed_substitute_eq_false_iff _ _).mpr fun e' he' => ?_
    simp only [adjust, Query.substitute, Query.roots_mapRoots] at he'
    obtain ⟨e, -, rfl⟩ := List.mem_map.mp he'
    exact Substitutes.approximate_stable.changed_substitute_value e

/-- A capped limit stays below the ceiling, whatever rule comes next. -/
theorem settled_capLimit_adjust {ceiling standard : UInt64} {q : Query} (next : BuiltinRule)
    (h : (capLimit ceiling standard).Settled q) :
    (capLimit ceiling standard).Settled (next.adjust q).value := by
  obtain ⟨n, hn, hle⟩ := (Query.changed_capLimit_eq_false_iff ceiling standard q).mp h
  refine (Query.changed_capLimit_eq_false_iff ceiling standard _).mpr ?_
  rcases next.kinds with ⟨ceiling', standard', rfl⟩ | hcount | ⟨s, rfl⟩
  · -- Another ceiling only takes the limit further down.
    refine ⟨min n ceiling', ?_, UInt64.le_trans Std.min_le_left hle⟩
    rw [adjust, Query.value_capLimit]
    simp [cappedLimit, hn]
  · exact ⟨n, by rw [limit_adjust_of_isCounting hcount, hn], hle⟩
  · exact ⟨n, hn, hle⟩

/-- Where nothing is left to choose, nothing is left to choose later on. -/
theorem settled_adjust_of_isCounting {r next : BuiltinRule} {q : Query} (hr : r.isCounting)
    (happrox : next.Approximate) (h : r.Settled q) : r.Settled (next.adjust q).value := by
  rw [settled_iff_of_isCounting hr] at h ⊢
  intro e' he'
  rcases next.kinds with ⟨ceiling, standard, rfl⟩ | hcount | ⟨s, rfl⟩
  · rw [adjust, Query.value_capLimit] at he'
    exact h e' he'
  · rw [adjust_eq_chooseCounts hcount, Query.value_chooseCounts] at he'
    obtain ⟨e, he, rfl⟩ := List.mem_map.mp he'
    exact Expr.bind_countedColumn?_chooseCount next.finalChoice fun _ => h e he
  · -- No distinct count is left at all.
    obtain rfl : s = .approximate := happrox s rfl
    obtain ⟨e, -, rfl⟩ := List.mem_map.mp he'
    rw [Substitutes.countedColumn?_approximate]
    rfl

/-- Where every approximate aggregation is in place, no rule brings an exact one back. -/
theorem settled_approximate_adjust {next : BuiltinRule} {q : Query} (happrox : next.Approximate)
    (h : (substitute .approximate).Settled q) :
    (substitute .approximate).Settled (next.adjust q).value := by
  have hroots := (Query.changed_substitute_eq_false_iff .approximate q).mp h
  rcases next.kinds with ⟨ceiling, standard, rfl⟩ | hcount | ⟨s, rfl⟩
  · refine (Query.changed_substitute_eq_false_iff _ _).mpr fun e he => hroots e ?_
    rwa [adjust, Query.value_capLimit] at he
  · -- No distinct count is left that could be renamed.
    have hsettled : next.Settled q := by
      rw [settled_iff_of_isCounting hcount]
      intro e he
      have hroot : e ∈ q.roots := by simp [Query.roots, he]
      rw [Substitutes.countedColumn?_of_unchanged (hroots e hroot)]
      rfl
    rw [adjust_eq_same hsettled]
    exact h
  · obtain rfl : s = .approximate := happrox s rfl
    rw [adjust_eq_same h]
    exact h

/-- **No rule unsettles another one.** -/
theorem Settled.adjust {r next : BuiltinRule} {q : Query} (hr : r.Approximate)
    (hnext : next.Approximate) (h : r.Settled q) : r.Settled (next.adjust q).value := by
  rcases r.kinds with ⟨ceiling, standard, rfl⟩ | hcount | ⟨s, rfl⟩
  · exact settled_capLimit_adjust next h
  · exact settled_adjust_of_isCounting hcount hnext h
  · obtain rfl : s = .approximate := hr s rfl
    exact settled_approximate_adjust hnext h

end BuiltinRule

end QueryTuning
