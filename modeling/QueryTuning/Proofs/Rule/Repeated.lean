import QueryTuning.Proofs.Rule.Settled

/-!
# A rule that is applied again

Rules should find nothing to do on their own results. Whether the rule that puts substitutes in
place does so depends on the substitutes, which may come from anywhere: their targets may form
chains or cycles, end in a number, or differ from themselves in case.

* `Substitutes.Stable.quiet` : stable substitutes find nothing to do a second time.
* `Substitutes.stable_of_changed_eq_false` : other substitutes do, on a query with a single call.
* `Substitutes.stable_iff_quiet` : so the stable ones are exactly those that can be repeated.
-/

namespace QueryTuning.Substitutes

variable {s : Substitutes}

/-- **Stable substitutes are quiet on their own results.** -/
theorem Stable.quiet (h : s.Stable) (q : Query) :
    (BuiltinRule.substitute s).toRule.Quiet (q.substitute s).value := by
  apply BuiltinRule.Settled.quiet
  show ((q.substitute s).value.substitute s).changed = false
  rw [Query.changed_substitute_eq_false_iff]
  intro e he
  -- Every expression of the result is the result of an expression.
  have hroots : (q.substitute s).value.roots = q.roots.map fun e => (s.substitute e).value :=
    Query.roots_mapRoots _ q
  rw [hroots] at he
  obtain ⟨d, -, rfl⟩ := List.mem_map.mp he
  exact h.changed_substitute_value d

/-- Substitutes that change nothing a second time are stable. A target is seen a second time in the
    query that selects nothing but a call of the function that it stands in for. -/
theorem stable_of_changed_eq_false
    (h : ∀ q : Query, ((q.substitute s).value.substitute s).changed = false) : s.Stable := by
  intro f new hnew
  let q : Query := { select := [.call f []] }
  have hroots : (q.substitute s).value.roots = [(s.substitute (.call f [])).value] := rfl
  have hsecond : (s.substitute (s.substitute (.call f [])).value).changed = false := by
    apply (Query.changed_substitute_eq_false_iff s _).mp (h q)
    rw [hroots]
    exact List.mem_singleton.mpr rfl
  -- The first time the call has become a call of the target.
  rw [value_substitute_call, hnew] at hsecond
  exact ((changed_substitute_call_eq_false_iff s _ _).mp hsecond).1

/-- **Exactly the stable substitutes can be repeated.** For all substitutes it is the same to be
    stable, to be a rule that is quiet on its own result, whatever the query was, and to leave every
    result as it is a second time. The approximate aggregations are stable. -/
theorem stable_iff_quiet :
    (∀ s : Substitutes,
      (s.Stable ↔ ∀ q, ∃ a, (BuiltinRule.substitute s).toRule.apply q = .ok a ∧
        (BuiltinRule.substitute s).toRule.apply a.value = .ok (.same a.value)) ∧
      (s.Stable ↔ ∀ q : Query,
        ((q.substitute s).value.substitute s).value = (q.substitute s).value)) ∧
    approximate.Stable := by
  refine ⟨fun s => ⟨⟨fun h q => ?_, fun h => ?_⟩, ⟨fun h q => ?_, fun h => ?_⟩⟩,
    approximate_stable⟩
  · exact ⟨q.substitute s, rfl, h.quiet q⟩
  · apply stable_of_changed_eq_false
    intro q
    obtain ⟨a, ha, hagain⟩ := h q
    cases ha
    exact congrArg Adjusted.changed (Except.ok.inj hagain)
  · have hquiet : Except.ok ((q.substitute s).value.substitute s)
        = Except.ok (.same (q.substitute s).value) := h.quiet q
    rw [Except.ok.inj hquiet]
    rfl
  · -- The flag of the second time is exact, so it says nothing else than the query does.
    apply stable_of_changed_eq_false
    intro q
    exact (Query.exact_substitute s (q.substitute s).value).changed_eq_false (h q)

/-- A target that ends in a number gets the number appended again. -/
example : ¬ (⟨[.numbered "p" "p1"]⟩ : Substitutes).Stable := by
  intro h
  have hagain := h "p7" { target := "p1", appended := some 7 } (by decide +kernel)
  exact absurd hagain (by decide +kernel)

end QueryTuning.Substitutes
