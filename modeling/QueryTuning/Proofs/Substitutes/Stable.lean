import QueryTuning.Proofs.Substitutes.Grammar
import QueryTuning.Rule.Substitute

/-!
# Substitutes that are left alone

The result of a substitution is a call again, and a later pass looks at it again. A list of
substitutes is stable if nothing comes of that.

* `Substitutes.Stable` : every target is left alone, or stands in for itself.
* `Substitutes.changed_substitute_value` : stable substitutes change nothing a second time.
* `Substitutes.approximate_stable` : the approximate aggregations are stable.
-/

namespace QueryTuning

namespace Substitutes

/-- Substitutes are **stable** if no target has a substitute other than itself, and none gets a
    number appended. -/
def Stable (s : Substitutes) : Prop :=
  ∀ name new, s.lookup name = some new →
    s.lookup new.target = none ∨ s.lookup new.target = some { target := new.target }

/-- **Stable substitutes change nothing a second time.** The induction is on the expression; for a
    call, its operands have been looked at twice already, and an appended number is no call. -/
theorem Stable.changed_substitute_value {s : Substitutes} (h : s.Stable) (e : Expr) :
    (s.substitute (s.substitute e).value).changed = false := by
  induction e using Expr.inductionOn with
  | literal v => rfl
  | identifier x => rfl
  | call f es ih =>
    rw [value_substitute_call, changed_substitute_call_eq_false_iff]
    constructor
    · -- The function is the old one, if it has no substitute, and a target otherwise.
      cases hnew : s.lookup f with
      | none => exact .inl hnew
      | some new => exact h f new hnew
    · intro d hd
      rcases List.mem_append.mp hd with hd | hd
      · obtain ⟨e, he, rfl⟩ := List.mem_map.mp hd
        exact ih e he
      · -- What was appended is a constant, which is always left alone.
        obtain ⟨n, -, rfl⟩ := List.mem_map.mp hd
        rfl

/-! ## Approximate aggregations -/

/-- The functions that approximate aggregations are replaced by. -/
def approximateTargets : List String := approximateTable.map Prod.snd

/-- Whatever the approximate aggregations put in place is one of a few functions. -/
theorem target_mem_approximateTargets {f : String} {new : Substitution}
    (h : approximate.lookup f = some new) : new.target ∈ approximateTargets := by
  cases lookup_approximate_eq_some_iff.mp h with
  | count hname => decide
  | percentile hname => decide
  | itself hname =>
    have hself : ∀ name ∈ [FunctionName.distinct, FunctionName.distinctCountHLL,
        FunctionName.distinctCountBitmap, FunctionName.percentileTDigest,
        FunctionName.percentileEst], name ∈ approximateTargets := by
      decide
    exact hself _ hname
  | numbered ds hrun hlt hname =>
    show FunctionName.percentileSmartTDigest ∈ approximateTargets
    decide

/-- None of these functions is replaced again, and none of them is the plain distinct count. -/
theorem lookup_of_mem_approximateTargets :
    ∀ t ∈ approximateTargets,
      (approximate.lookup t = none ∨ approximate.lookup t = some { target := t }) ∧
      canonicalName t ≠ FunctionName.distinctCount := by
  decide +kernel

/-- The approximate aggregations are stable. -/
theorem approximate_stable : approximate.Stable := by
  intro name new hnew
  have hmem : new.target ∈ approximateTargets := target_mem_approximateTargets hnew
  exact (lookup_of_mem_approximateTargets new.target hmem).1

/-- The plain distinct count has an approximate substitute, in whatever case it is written. -/
theorem lookup_distinctCount {f : String} (h : canonicalName f = FunctionName.distinctCount) :
    approximate.lookup f = some { target := FunctionName.distinctCountSmartHLL } :=
  lookup_approximate_eq_some_iff.mpr (h ▸ .count _ (.inl rfl))

end Substitutes

end QueryTuning
