import Mathlib.Data.List.Forall2
import Mathlib.Data.Option.Basic
import QueryTuning.Proofs.Expr.Census
import QueryTuning.Proofs.Substitutes.Approximate

/-!
# Queries with approximate aggregations

Approximate aggregations take the place of exact ones one for one. Calls are counted here by name
before and after: no exact aggregation is left, what has gone is found again under the approximate
names, and nothing else comes or goes but the numbers that were in the names of percentiles.

* `approximateName` : the approximate function for a canonical name.
* `Expr.Approximated` : how an expression relates to the one with approximate aggregations.
* `Query.approximate_conserves` : every expression of a query relates that way to the one that
  stands in its place.
-/

namespace QueryTuning

/-! ## Names -/

/-- The approximate function for a canonical name, which may be the function itself. -/
def approximateName (name : String) : String :=
  if name = FunctionName.distinctCount ∨ name = FunctionName.distinctCountMV then
    FunctionName.distinctCountSmartHLL
  else if name = FunctionName.percentile ∨ name = FunctionName.percentileMV
      ∨ ∃ n, NumberedPercentile name n then
    FunctionName.percentileSmartTDigest
  else
    name

/-- The approximate functions are no percentiles with a number. -/
theorem not_numberedPercentile_approximate :
    (¬ ∃ n, NumberedPercentile FunctionName.distinctCountSmartHLL n) ∧
      ¬ ∃ n, NumberedPercentile FunctionName.percentileSmartTDigest n := by
  decide +kernel

/-- The distinct counts become approximate distinct counts, and nothing else does. -/
theorem approximateName_eq_distinctCountSmartHLL_iff {name : String} :
    approximateName name = FunctionName.distinctCountSmartHLL
      ↔ (name = FunctionName.distinctCount ∨ name = FunctionName.distinctCountMV)
        ∨ name = FunctionName.distinctCountSmartHLL := by
  unfold approximateName
  split
  case isTrue hcount => exact iff_of_true rfl (.inl hcount)
  case isFalse hcount =>
    split
    case isFalse => rw [or_iff_right hcount]
    case isTrue hpercentile =>
      refine iff_of_false (by decide) fun h => ?_
      obtain rfl := h.resolve_left hcount
      rcases hpercentile with hname | hname | hnumber
      · exact absurd hname (by decide)
      · exact absurd hname (by decide)
      · exact not_numberedPercentile_approximate.1 hnumber

/-- The percentiles become approximate percentiles, and nothing else does. -/
theorem approximateName_eq_percentileSmartTDigest_iff {name : String} :
    approximateName name = FunctionName.percentileSmartTDigest
      ↔ (((name = FunctionName.percentile ∨ name = FunctionName.percentileMV)
          ∨ name = FunctionName.percentileSmartTDigest)
        ∨ ∃ n, NumberedPercentile name n) := by
  unfold approximateName
  split
  case isTrue hcount =>
    -- A distinct count is neither a percentile nor one with a number.
    have hmem : (name, FunctionName.distinctCountSmartHLL) ∈ Substitutes.approximateTable := by
      rcases hcount with rfl | rfl <;> decide
    refine iff_of_false (by decide) ?_
    rintro (((rfl | rfl) | rfl) | ⟨n, hn⟩)
    · revert hcount; decide
    · revert hcount; decide
    · revert hcount; decide
    · exact Substitutes.not_numberedPercentile_of_mem hmem n hn
  case isFalse hcount =>
    split
    case isTrue hpercentile => exact iff_of_true rfl (by tauto)
    case isFalse hpercentile => exact ⟨fun h => .inl (.inr h), by tauto⟩

/-- **No function becomes an exact aggregation**, one that was one included. -/
theorem approximateName_ne {name exact : String}
    (h : exact ∈ [FunctionName.distinctCount, FunctionName.distinctCountMV,
      FunctionName.percentile, FunctionName.percentileMV] ∨ ∃ n, NumberedPercentile exact n) :
    approximateName name ≠ exact := by
  unfold approximateName
  split
  case isTrue =>
    rintro rfl
    exact h.elim (by decide) not_numberedPercentile_approximate.1
  case isFalse hcount =>
    split
    case isTrue =>
      rintro rfl
      exact h.elim (by decide) not_numberedPercentile_approximate.2
    case isFalse hpercentile =>
      rintro rfl
      simp only [List.mem_cons, List.not_mem_nil, or_false] at h
      tauto

/-- Where another function has a name, it had it before. -/
theorem approximateName_eq_iff_of_other {name other : String}
    (hother : other ∉ [FunctionName.distinctCount, FunctionName.distinctCountMV,
      FunctionName.distinctCountSmartHLL, FunctionName.percentile, FunctionName.percentileMV,
      FunctionName.percentileSmartTDigest]) (hnumber : ¬ ∃ n, NumberedPercentile other n) :
    approximateName name = other ↔ name = other := by
  simp only [List.mem_cons, List.not_mem_nil, or_false, not_or] at hother
  unfold approximateName
  split
  case isTrue hcount =>
    refine iff_of_false (Ne.symm hother.2.2.1) ?_
    rintro rfl
    tauto
  case isFalse hcount =>
    split
    case isTrue hpercentile =>
      refine iff_of_false (Ne.symm hother.2.2.2.2.2) ?_
      rintro rfl
      tauto
    case isFalse => rfl

namespace Substitutes

/-- The targets in the table are the approximate functions. -/
theorem approximateName_of_mem :
    ∀ entry ∈ approximateTable, canonicalName entry.2 = approximateName entry.1 := by
  decide +kernel

/-- What is given up has a substitute. -/
theorem approximateName_of_lookup_eq_none {f : String} (h : approximate.lookup f = none) :
    approximateName (canonicalName f) = canonicalName f := by
  have hnot (new : Substitution) : ¬ Approximates (canonicalName f) new := fun hnew => by
    rw [lookup_approximate_eq_some_iff.mpr hnew] at h
    cases h
  have hcount : ¬ (canonicalName f = FunctionName.distinctCount
      ∨ canonicalName f = FunctionName.distinctCountMV) := fun hname => hnot _ (.count _ hname)
  have hpercentile : ¬ (canonicalName f = FunctionName.percentile
      ∨ canonicalName f = FunctionName.percentileMV
      ∨ ∃ n, NumberedPercentile (canonicalName f) n) := by
    rintro (hname | hname | ⟨n, hn⟩)
    · exact hnot _ (.percentile _ (.inl hname))
    · exact hnot _ (.percentile _ (.inr hname))
    · exact hnot _ (approximates_iff.mpr (.inr ⟨n, hn, rfl⟩))
  rw [approximateName, if_neg hcount, if_neg hpercentile]

/-- **The approximate aggregations give each call the approximate name**, told by the canonical name
    that it had. -/
theorem canonicalName_targetOf_approximate (f : String) :
    canonicalName (approximate.targetOf f) = approximateName (canonicalName f) := by
  unfold targetOf
  cases hnew : approximate.lookup f with
  | none => exact (approximateName_of_lookup_eq_none hnew).symm
  | some new =>
    rcases lookup_approximate_iff.mp hnew with ⟨target, hmem, rfl⟩ | ⟨n, hn, rfl⟩
    · exact approximateName_of_mem (canonicalName f, target) hmem
    · -- A name with a number is neither of the distinct counts.
      have hcount : ¬ (canonicalName f = FunctionName.distinctCount
          ∨ canonicalName f = FunctionName.distinctCountMV) := by
        intro hname
        have hmem : (canonicalName f, FunctionName.distinctCountSmartHLL) ∈ approximateTable := by
          rcases hname with hname | hname <;> rw [hname] <;> decide
        exact not_numberedPercentile_of_mem hmem n hn
      rw [approximateName, if_neg hcount, if_pos (.inr (.inr ⟨n, hn⟩))]
      show canonicalName FunctionName.percentileSmartTDigest = _
      decide +kernel

/-- A call gets a number exactly if it has one in its name. -/
theorem isSome_numberOf?_approximate (f : String) :
    (approximate.numberOf? f).isSome = true ↔ ∃ n, NumberedPercentile (canonicalName f) n := by
  unfold numberOf?
  constructor
  · intro h
    obtain ⟨k, hk⟩ := Option.isSome_iff_exists.mp h
    obtain ⟨new, hnew, happended⟩ := Option.bind_eq_some_iff.mp hk
    rcases lookup_approximate_iff.mp hnew with ⟨target, -, rfl⟩ | ⟨n, hn, -⟩
    · cases happended
    · exact ⟨n, hn⟩
  · rintro ⟨n, hn⟩
    rw [lookup_approximate_iff.mpr (.inr ⟨n, hn, rfl⟩)]
    rfl

end Substitutes

/-! ## Counts -/

/-- What is of one of two kinds, but never of both, is counted kind by kind. -/
theorem countP_or_of_disjoint {α : Type} {p q : α → Bool} (h : ∀ a, p a = true → q a = false)
    (as : List α) : as.countP (fun a => p a || q a) = as.countP p + as.countP q := by
  induction as with
  | nil => rfl
  | cons a as ih =>
    have ha := h a
    cases hp : p a <;> cases hq : q a <;> simp_all <;> omega

namespace Expr

/-- How many percentiles with their number in the name are called in an expression. -/
def numberedPercentiles (e : Expr) : Nat :=
  e.operators.countP fun f => decide (∃ n, NumberedPercentile (canonicalName f) n)

/-- Behind the approximate aggregations, a function is called as often as calls have it for their
    approximate name. -/
theorem callCount_approximate (name : String) (e : Expr) :
    (Substitutes.approximate.substitute e).value.callCount name
      = e.operators.countP fun f => approximateName (canonicalName f) == name := by
  rw [callCount_eq, Substitutes.operators_substitute, List.countP_map]
  refine List.countP_congr fun f _ => ?_
  rw [Function.comp_apply, Substitutes.canonicalName_targetOf_approximate]

/-- As many numbers are appended as there are percentiles with a number. -/
theorem length_numbers_approximate (e : Expr) :
    (Substitutes.approximate.numbers e).length = e.numberedPercentiles := by
  rw [Substitutes.numbers, List.length_filterMap_eq_countP, numberedPercentiles]
  refine List.countP_congr fun f _ => ?_
  rw [decide_eq_true_iff]
  exact Substitutes.isSome_numberOf?_approximate f

/-- **What approximate aggregations make of an expression.** -/
structure Approximated (e e' : Expr) : Prop where
  /-- No exact aggregation is left. -/
  exact_gone : ∀ name, (name ∈ [FunctionName.distinctCount, FunctionName.distinctCountMV,
      FunctionName.percentile, FunctionName.percentileMV] ∨ ∃ n, NumberedPercentile name n) →
    e'.containsCall name = false
  /-- The approximate distinct counts are those that there were and one for each exact one. -/
  distinctCounts : e'.callCount FunctionName.distinctCountSmartHLL
    = e.callCount FunctionName.distinctCount + e.callCount FunctionName.distinctCountMV
      + e.callCount FunctionName.distinctCountSmartHLL
  /-- The approximate percentiles are those that there were and one for each exact one. -/
  percentiles : e'.callCount FunctionName.percentileSmartTDigest
    = e.callCount FunctionName.percentile + e.callCount FunctionName.percentileMV
      + e.callCount FunctionName.percentileSmartTDigest + e.numberedPercentiles
  /-- All other functions are called as often as before. -/
  otherCalls : ∀ name, name ∉ [FunctionName.distinctCount, FunctionName.distinctCountMV,
      FunctionName.distinctCountSmartHLL, FunctionName.percentile, FunctionName.percentileMV,
      FunctionName.percentileSmartTDigest] → (¬ ∃ n, NumberedPercentile name n) →
    e'.callCount name = e.callCount name
  /-- The columns are the same, in the same order. -/
  columns : e'.identifiers = e.identifiers
  /-- A node is added for each percentile with a number. -/
  nodes : e'.walk.length = e.walk.length + e.numberedPercentiles
  /-- All that is added to the constants are whole numbers. -/
  constants : ∃ ns : List Int64, ns.length = e.numberedPercentiles ∧
    e'.literals.Perm (e.literals ++ ns.map .int)
  /-- The expression is as deep as before or deeper by one. -/
  depth_bounds : e.depth ≤ e'.depth ∧ e'.depth ≤ e.depth + 1
  /-- It is as deep as before if all percentiles with a number have operands. -/
  depth_eq : (∀ f es, .call f es ∈ e.walk → (∃ n, NumberedPercentile (canonicalName f) n) →
    es ≠ []) → e'.depth = e.depth
  /-- It is deeper exactly if one without operands stands at the end of a longest path. -/
  depth_eq_succ_iff : e'.depth = e.depth + 1 ↔ ∃ path f, e.at? path = some (.call f []) ∧
    path.length + 1 = e.depth ∧ ∃ n, NumberedPercentile (canonicalName f) n

/-- A call that grows is a percentile with a number and without operands. -/
theorem grows_approximate_iff {d : Expr} : Substitutes.approximate.Grows d
    ↔ ∃ f, d = .call f [] ∧ ∃ n, NumberedPercentile (canonicalName f) n := by
  simp only [Substitutes.Grows, Substitutes.isSome_numberOf?_approximate]

/-- **Approximate aggregations lose nothing and leave no exact one behind.** -/
theorem approximated_substitute (e : Expr) :
    e.Approximated (Substitutes.approximate.substitute e).value where
  exact_gone := by
    intro name hname
    rw [containsCall_eq_false_iff, callCount_approximate, List.countP_eq_zero]
    intro f _
    rw [beq_iff_eq]
    exact approximateName_ne hname
  distinctCounts := by
    have hcount : (Substitutes.approximate.substitute e).value.callCount
        FunctionName.distinctCountSmartHLL
        = e.operators.countP fun f => (canonicalName f == FunctionName.distinctCount
            || canonicalName f == FunctionName.distinctCountMV)
            || canonicalName f == FunctionName.distinctCountSmartHLL := by
      rw [callCount_approximate]
      refine List.countP_congr fun f _ => ?_
      simpa using approximateName_eq_distinctCountSmartHLL_iff
    rw [hcount, countP_or_of_disjoint, countP_or_of_disjoint, callCount_eq, callCount_eq,
      callCount_eq]
    · intro f hf
      rw [beq_iff_eq.mp hf]
      decide
    · intro f hf
      rcases Bool.or_eq_true_iff.mp hf with hf | hf <;> rw [beq_iff_eq.mp hf] <;> decide
  percentiles := by
    have hcount : (Substitutes.approximate.substitute e).value.callCount
        FunctionName.percentileSmartTDigest
        = e.operators.countP fun f => ((canonicalName f == FunctionName.percentile
            || canonicalName f == FunctionName.percentileMV)
            || canonicalName f == FunctionName.percentileSmartTDigest)
            || decide (∃ n, NumberedPercentile (canonicalName f) n) := by
      rw [callCount_approximate]
      refine List.countP_congr fun f _ => ?_
      simpa using approximateName_eq_percentileSmartTDigest_iff
    rw [hcount, countP_or_of_disjoint, countP_or_of_disjoint, countP_or_of_disjoint,
      callCount_eq, callCount_eq, callCount_eq, numberedPercentiles]
    · intro f hf
      rw [beq_iff_eq.mp hf]
      decide
    · intro f hf
      rcases Bool.or_eq_true_iff.mp hf with hf | hf <;> rw [beq_iff_eq.mp hf] <;> decide
    · intro f hf
      rcases Bool.or_eq_true_iff.mp hf with hf | hf
      · rcases Bool.or_eq_true_iff.mp hf with hf | hf <;> rw [beq_iff_eq.mp hf] <;> decide +kernel
      · rw [beq_iff_eq.mp hf]
        decide +kernel
  otherCalls := by
    intro name hother hnumber
    rw [callCount_approximate, callCount_eq]
    refine List.countP_congr fun f _ => ?_
    rw [beq_iff_eq, beq_iff_eq]
    exact approximateName_eq_iff_of_other hother hnumber
  columns := Substitutes.identifiers_substitute _ e
  nodes := by rw [Substitutes.length_walk_substitute, length_numbers_approximate]
  constants :=
    ⟨Substitutes.approximate.numbers e, length_numbers_approximate e,
      Substitutes.literals_substitute _ e⟩
  depth_bounds := Substitutes.depth_substitute_bounds _ e
  depth_eq := by
    intro h
    obtain ⟨hle, hge⟩ := Substitutes.approximate.depth_substitute_bounds e
    by_contra hne
    -- Deeper by one, it would have a percentile with a number and without operands.
    obtain ⟨path, d, hd, -, hgrows⟩ :=
      Substitutes.approximate.exists_grows_of_depth_substitute (e := e) (by omega)
    obtain ⟨f, rfl, hnumber⟩ := grows_approximate_iff.mp hgrows
    exact h f [] (mem_walk_of_at? hd) hnumber rfl
  depth_eq_succ_iff := by
    rw [Substitutes.depth_substitute_eq_succ_iff]
    constructor
    · rintro ⟨path, d, hd, hlength, hgrows⟩
      obtain ⟨f, rfl, hnumber⟩ := grows_approximate_iff.mp hgrows
      exact ⟨path, f, hd, hlength, hnumber⟩
    · rintro ⟨path, f, hd, hlength, hnumber⟩
      exact ⟨path, _, hd, hlength, grows_approximate_iff.mpr ⟨f, rfl, hnumber⟩⟩

end Expr

/-! ## The result -/

/-- **Approximate aggregations lose and duplicate nothing in a query, and leave no exact one
    behind.** Every expression stands in the place of one that relates to it so: what is selected,
    the condition and the sort keys, with their directions. The limit stays. -/
theorem Query.approximate_conserves (q : Query) :
    List.Forall₂ Expr.Approximated q.select q.approximate.value.select ∧
    Option.Rel Expr.Approximated q.having q.approximate.value.having ∧
    List.Forall₂ (fun key key' => key'.direction = key.direction ∧
      key.expr.Approximated key'.expr) q.orderBy q.approximate.value.orderBy ∧
    q.approximate.value.limit = q.limit := by
  refine ⟨?_, ?_, ?_, rfl⟩
  · show List.Forall₂ _ _ (q.select.map _)
    rw [List.forall₂_map_right_iff, List.forall₂_same]
    exact fun e _ => e.approximated_substitute
  · show Option.Rel _ _ (q.having.map _)
    cases q.having with
    | none => exact .none
    | some e => exact .some e.approximated_substitute
  · show List.Forall₂ _ _ (q.orderBy.map _)
    rw [List.forall₂_map_right_iff, List.forall₂_same]
    exact fun key _ => ⟨rfl, key.expr.approximated_substitute⟩

end QueryTuning
