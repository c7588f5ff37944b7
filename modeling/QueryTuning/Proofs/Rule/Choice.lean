import QueryTuning.Rule.Builtin

/-!
# Choices among distinct counts

All rules that rename distinct counts do so by a choice that is made for each column. A distinct
count that was renamed is none any more, so nothing is ever chosen for it again.

* `Expr.FinalChoice` : a choice that never chooses the plain distinct count.
* `Expr.countedColumn?_chooseCount` : what such a choice has renamed counts no column.
* `BuiltinRule.choice`, `BuiltinRule.isCounting` : the choice of a rule, and whether it has one.
* `BuiltinRule.kinds` : the three kinds of rules.
-/

namespace QueryTuning

namespace Expr

/-! ## Counted columns -/

theorem countedColumn?_of_ne {f : String} (es : List Expr)
    (h : canonicalName f ≠ FunctionName.distinctCount) : (call f es).countedColumn? = none := by
  simp [countedColumn?, isCallOf, canonicalOperator?, operator?, h]

/-- What counts a column is a call of the distinct count on that column. -/
theorem countedColumn?_eq_some {e : Expr} {c : String} (h : e.countedColumn? = some c) :
    ∃ f, e = .call f [.identifier c] ∧ canonicalName f = FunctionName.distinctCount := by
  unfold countedColumn? at h
  by_cases hcall : e.isCallOf FunctionName.distinctCount
  · simp only [hcall, if_true] at h
    -- The only operand that yields a column is an identifier that stands alone.
    match e, h, hcall with
    | .call f [.identifier x], h, hcall =>
      refine ⟨f, ?_, ?_⟩
      · simp only [onlyColumn?, Option.some.injEq] at h
        rw [h]
      · simpa [isCallOf, canonicalOperator?, operator?] using hcall
  · simp [hcall] at h

theorem countedColumn?_call {f : String} (c : String)
    (h : canonicalName f = FunctionName.distinctCount) :
    (call f [.identifier c]).countedColumn? = some c := by
  simp [countedColumn?, isCallOf, canonicalOperator?, operator?, onlyColumn?, h]

/-! ## Choices -/

/-- A choice changes an expression exactly if it is a distinct count and something is chosen for
    its column. -/
theorem changed_chooseCount (choose : String → Option String) (e : Expr) :
    (e.chooseCount choose).changed = (e.countedColumn?.bind choose).isSome := by
  unfold chooseCount
  cases e.countedColumn?.bind choose <;> rfl

theorem chooseCount_of_none {choose : String → Option String} {e : Expr}
    (h : e.countedColumn?.bind choose = none) : e.chooseCount choose = .same e := by
  simp [chooseCount, h]

/-- A choice is **final** if it never chooses the plain distinct count, so that nothing can be
    chosen again for what it renamed. -/
def FinalChoice (choose : String → Option String) : Prop :=
  ∀ c t, choose c = some t → canonicalName t ≠ FunctionName.distinctCount

/-- What was renamed by a final choice counts no column any more. -/
theorem countedColumn?_chooseCount {choose : String → Option String} (hfinal : FinalChoice choose)
    {e : Expr} {t : String} (h : e.countedColumn?.bind choose = some t) :
    (e.chooseCount choose).value.countedColumn? = none := by
  obtain ⟨c, hc, ht⟩ := Option.bind_eq_some_iff.mp h
  obtain ⟨f, rfl, -⟩ := countedColumn?_eq_some hc
  -- The call has got a name that no choice is made for.
  have hvalue : (chooseCount choose (.call f [.identifier c])).value = .call t [.identifier c] := by
    simp [chooseCount, h, rename]
  rw [hvalue]
  exact countedColumn?_of_ne _ (hfinal c t ht)

/-- A choice has nothing left to choose behind another choice, or behind itself, unless it had
    before and was not heard. -/
theorem bind_countedColumn?_chooseCount {first second : String → Option String} {e : Expr}
    (hfinal : FinalChoice first)
    (h : e.countedColumn?.bind first = none → e.countedColumn?.bind second = none) :
    (e.chooseCount first).value.countedColumn?.bind second = none := by
  cases hfirst : e.countedColumn?.bind first with
  | none =>
    rw [chooseCount_of_none hfirst]
    exact h hfirst
  | some t =>
    rw [countedColumn?_chooseCount hfinal hfirst]
    rfl

end Expr

/-- A plan chooses one of two functions, or none. -/
theorem CountingPlan.choose_cases (plan : CountingPlan) (c : String) :
    plan.choose c = none ∨ plan.choose c = some FunctionName.segmentPartitionedDistinctCount ∨
      plan.choose c = some FunctionName.distinctCountMV := by
  simp only [choose]
  split <;> simp

/-! ## The choice of a rule -/

namespace BuiltinRule

/-- The choice by which a rule renames distinct counts. Rules that do other things choose
    nothing. -/
def choice : BuiltinRule → String → Option String
  | countBySegment columns => Query.segmentChoice columns
  | countMultiValued schema => Query.multiValuedChoice schema
  | chooseCounts plan => plan.choose
  | capLimit _ _ | substitute _ => fun _ => none

/-- Whether a rule renames distinct counts. -/
def isCounting : BuiltinRule → Bool
  | countBySegment _ | countMultiValued _ | chooseCounts _ => true
  | capLimit _ _ | substitute _ => false

theorem adjust_eq_chooseCounts {r : BuiltinRule} (h : r.isCounting) (q : Query) :
    r.adjust q = q.chooseCounts r.choice := by
  cases r with
  | countBySegment columns => rfl
  | countMultiValued schema => rfl
  | chooseCounts plan => rfl
  | capLimit ceiling standard => cases h
  | substitute s => cases h

/-- There are three kinds of rules: those that cap the limit, those that rename distinct counts, and
    those that put substitutes in place. -/
theorem kinds (r : BuiltinRule) :
    (∃ ceiling standard, r = .capLimit ceiling standard) ∨ r.isCounting = true ∨
      ∃ s, r = .substitute s := by
  cases r with
  | capLimit ceiling standard => exact .inl ⟨ceiling, standard, rfl⟩
  | countBySegment columns => exact .inr (.inl rfl)
  | countMultiValued schema => exact .inr (.inl rfl)
  | chooseCounts plan => exact .inr (.inl rfl)
  | substitute s => exact .inr (.inr ⟨s, rfl⟩)

/-- Every rule chooses between the same two functions. -/
theorem target_of_choice {r : BuiltinRule} {c t : String} (h : r.choice c = some t) :
    t = FunctionName.segmentPartitionedDistinctCount ∨ t = FunctionName.distinctCountMV := by
  cases r with
  | capLimit ceiling standard => cases h
  | countBySegment columns =>
    replace h : Query.segmentChoice columns c = some t := h
    grind [Query.segmentChoice]
  | countMultiValued schema =>
    replace h : Query.multiValuedChoice schema c = some t := h
    grind [Query.multiValuedChoice]
  | chooseCounts plan =>
    have hplan := plan.choose_cases c
    rw [show plan.choose c = some t from h] at hplan
    simpa using hplan
  | substitute s => cases h

/-- No rule chooses the plain distinct count for a column. -/
theorem finalChoice (r : BuiltinRule) : Expr.FinalChoice r.choice := by
  intro c t h
  -- Neither target is the plain distinct count, in whatever case that one is spelt.
  rcases target_of_choice h with rfl | rfl <;> decide +kernel

end BuiltinRule

end QueryTuning
