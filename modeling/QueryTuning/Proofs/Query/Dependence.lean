import QueryTuning.Proofs.Query.Tuned

/-!
# What a table can influence

Nothing of a table is looked at but the choice of its plan for the columns that a query counts, as
it is selected. Even of that choice not everything can be seen: approximate aggregations make one
function of the plain distinct count and of the count of several values.

* `Policy.Alike` : two choices that a tuned query does not tell apart.
* `Policy.tunedRoot_eq_iff` : a root that is counted tells two choices apart exactly if they are not
  alike.
* `Table.recast` : a table under another name, with other data types.
* `tune_eq_tune_iff` : two tables give one tuned query exactly if their choices are alike.
-/

namespace QueryTuning

namespace Policy

variable {policy : Policy}

/-! ## Choices -/

/-- **Choices are alike** if a tuned query does not tell them apart. With approximate aggregations
    only the count by segments stands out. -/
def Alike (policy : Policy) (t t' : Option String) : Prop :=
  if policy.approximate then
    t = some FunctionName.segmentPartitionedDistinctCount
      ↔ t' = some FunctionName.segmentPartitionedDistinctCount
  else
    t = t'

/-! ## Roots -/

/-- Behind approximate aggregations, a distinct count is either counted by segments or not. -/
theorem tunedRoot_of_approximate (happrox : policy.approximate = true) (plan : CountingPlan)
    (c : String) {f : String} (hf : canonicalName f = FunctionName.distinctCount) :
    policy.tunedRoot (plan.choose c) (.call f [.identifier c])
      = .call (if plan.choose c = some FunctionName.segmentPartitionedDistinctCount then
            FunctionName.segmentPartitionedDistinctCount
          else FunctionName.distinctCountSmartHLL) [.identifier c] := by
  have hsegment : Substitutes.approximate.lookup FunctionName.segmentPartitionedDistinctCount
      = none := by decide +kernel
  have hvalues : Substitutes.approximate.lookup FunctionName.distinctCountMV
      = some { target := FunctionName.distinctCountSmartHLL } := by decide +kernel
  have hplain := Substitutes.lookup_distinctCount hf
  have hne : FunctionName.distinctCountMV ≠ FunctionName.segmentPartitionedDistinctCount := by
    decide
  rw [tunedRoot, renamedTo_call, approximated, if_pos happrox, Substitutes.value_substitute_call]
  rcases plan.choose_cases c with hchoose | hchoose | hchoose
  · simp [hchoose, hplain]
  · simp [hchoose, hsegment]
  · simp [hchoose, hvalues, hne]

/-- Without approximate aggregations, a distinct count shows what was chosen. No choice is the plain
    distinct count, so it also shows whether anything was. -/
theorem getD_choose_eq_iff {f : String} (hf : canonicalName f = FunctionName.distinctCount)
    (plan plan' : CountingPlan) (c : String) :
    (plan.choose c).getD f = (plan'.choose c).getD f ↔ plan.choose c = plan'.choose c := by
  have hfinal := (BuiltinRule.chooseCounts plan).finalChoice c
  have hfinal' := (BuiltinRule.chooseCounts plan').finalChoice c
  simp only [BuiltinRule.choice] at hfinal hfinal'
  constructor
  · intro h
    cases ht : plan.choose c with
    | none =>
      cases ht' : plan'.choose c with
      | none => rfl
      | some t' =>
        rw [ht, ht'] at h
        have hft : f = t' := h
        exact absurd (hft ▸ hf) (hfinal' t' ht')
    | some t =>
      cases ht' : plan'.choose c with
      | none =>
        rw [ht, ht'] at h
        have htf : t = f := h
        exact absurd (htf ▸ hf) (hfinal t ht)
      | some t' =>
        rw [ht, ht'] at h
        exact congrArg some h
  · intro h
    rw [h]

/-- **A root that is counted** tells two choices apart exactly if they are not alike. -/
theorem tunedRoot_eq_iff {f : String} (hf : canonicalName f = FunctionName.distinctCount)
    (plan plan' : CountingPlan) (c : String) :
    policy.tunedRoot (plan.choose c) (.call f [.identifier c])
        = policy.tunedRoot (plan'.choose c) (.call f [.identifier c])
      ↔ policy.Alike (plan.choose c) (plan'.choose c) := by
  by_cases happrox : policy.approximate = true
  · have hne : FunctionName.segmentPartitionedDistinctCount
        ≠ FunctionName.distinctCountSmartHLL := by decide
    rw [tunedRoot_of_approximate happrox plan c hf, tunedRoot_of_approximate happrox plan' c hf,
      Expr.call.injEq, Alike, if_pos happrox]
    by_cases h : plan.choose c = some FunctionName.segmentPartitionedDistinctCount <;>
      by_cases h' : plan'.choose c = some FunctionName.segmentPartitionedDistinctCount <;>
      simp [h, h', hne, hne.symm]
  · rw [tunedRoot, tunedRoot, approximated, approximated, if_neg happrox, if_neg happrox,
      renamedTo_call, renamedTo_call, Expr.call.injEq, Alike, if_neg happrox,
      getD_choose_eq_iff hf, and_iff_left rfl]

/-! ## Tuned queries -/

/-- A table has a say in the selected expressions only. -/
theorem tuned_eq_tuned_iff (table table' : Table) (q : Query) :
    policy.tuned table q = policy.tuned table' q ↔
      ∀ r ∈ q.select, policy.tunedRoot (policy.countTarget table r) r
        = policy.tunedRoot (policy.countTarget table' r) r := by
  rw [← List.map_inj_left]
  constructor
  · intro h
    exact congrArg Query.select h
  · intro h
    unfold tuned
    rw [h]

end Policy

/-! ## Tables -/

namespace Table

/-- A table under another name, with other data types for the columns of its schema. -/
def recast (name : String) (types : String → DataType) (t : Table) : Table where
  name
  partitionColumns := t.partitionColumns
  schema := t.schema.map fun s =>
    { s with columns := s.columns.map fun c column => { column with dataType := types c } }

theorem isPartitionColumn_recast (name : String) (types : String → DataType) (t : Table)
    (c : String) : (t.recast name types).isPartitionColumn c = t.isPartitionColumn c := rfl

/-- How many values a row holds in a column does not depend on their type. -/
theorem isMultiValued_recast (name : String) (types : String → DataType) (t : Table) (c : String) :
    (t.recast name types).isMultiValued c = t.isMultiValued c := by
  cases hs : t.schema with
  | none => simp [recast, isMultiValued, hs]
  | some s =>
    cases hc : s.columns[c]? with
    | none => simp [recast, isMultiValued, Schema.isMultiValued, Schema.cardinality,
        Schema.column?, hs, hc, Std.ExtTreeMap.getElem?_map]
    | some column => simp [recast, isMultiValued, Schema.isMultiValued, Schema.cardinality,
        Schema.column?, Column.cardinality, hs, hc, Std.ExtTreeMap.getElem?_map]

end Table

/-- A plan looks at a column in two ways only. -/
theorem choose_eq_of_agree (policy : Policy) {table table' : Table} {c : String}
    (hpartition : table.isPartitionColumn c = table'.isPartitionColumn c)
    (hvalues : table.isMultiValued c = table'.isMultiValued c) :
    (CountingPlan.ofPolicy policy table).choose c
      = (CountingPlan.ofPolicy policy table').choose c := by
  simp only [CountingPlan.choose, CountingPlan.ofPolicy, hpartition, hvalues]

/-- Choices that are the same are alike under every policy. -/
theorem Policy.alike_of_eq (policy : Policy) {t t' : Option String} (h : t = t') :
    policy.Alike t t' := by
  subst h
  unfold Alike
  split
  · exact Iff.rfl
  · rfl

/-- The tuned query shows the choices for the columns that are counted, as far as they are not
    alike, and nothing else of a table. -/
theorem tune_eq_of_alike_iff (policy : Policy) (q : Query) (table table' : Table) :
    tune policy table q = tune policy table' q ↔
      ∀ f c, .call f [.identifier c] ∈ q.select → canonicalName f = FunctionName.distinctCount →
        policy.Alike ((CountingPlan.ofPolicy policy table).choose c)
          ((CountingPlan.ofPolicy policy table').choose c) := by
  by_cases hq : q.select = []
  · -- The query is refused in both cases, and counts nothing.
    rw [Pipeline.tune_of_select_eq_nil policy table hq,
      Pipeline.tune_of_select_eq_nil policy table' hq, hq]
    simp
  · rw [tune_eq_ok policy table hq, tune_eq_ok policy table' hq, Except.ok.injEq,
      Policy.tuned_eq_tuned_iff]
    constructor
    · intro h f c hmem hf
      have hroot := h _ hmem
      rw [← Policy.bind_choose_eq_countTarget, ← Policy.bind_choose_eq_countTarget,
        Expr.countedColumn?_call c hf] at hroot
      exact (Policy.tunedRoot_eq_iff hf _ _ c).mp hroot
    · intro h r hr
      rw [← Policy.bind_choose_eq_countTarget, ← Policy.bind_choose_eq_countTarget]
      cases hc : r.countedColumn? with
      | none => rfl
      | some c =>
        obtain ⟨f, rfl, hf⟩ := Expr.countedColumn?_eq_some hc
        exact (Policy.tunedRoot_eq_iff hf _ _ c).mpr (h f c hr hf)

/-! ## The result -/

/-- **What a table can influence.**

    * Two tables give one result for a query exactly if the choices of their plans are alike for
      every column of a selected distinct count. Choices are alike if they are the same, and with
      approximate aggregations, if both of them are the count by segments or neither is.
    * So tables give one result if they agree, on those columns, on which of them partition the
      segments and which of them hold several values in a row.
    * The name of a table and the data types of its columns have no influence at all. -/
theorem tune_eq_tune_iff (policy : Policy) (q : Query) :
    (∀ table table' : Table, tune policy table q = tune policy table' q ↔
      ∀ f c, .call f [.identifier c] ∈ q.select → canonicalName f = FunctionName.distinctCount →
        policy.Alike ((CountingPlan.ofPolicy policy table).choose c)
          ((CountingPlan.ofPolicy policy table').choose c)) ∧
    (∀ table table' : Table,
      (∀ f c, .call f [.identifier c] ∈ q.select → canonicalName f = FunctionName.distinctCount →
        table.isPartitionColumn c = table'.isPartitionColumn c ∧
          table.isMultiValued c = table'.isMultiValued c) →
      tune policy table q = tune policy table' q) ∧
    (∀ (table : Table) (name : String) (types : String → DataType),
      tune policy (table.recast name types) q = tune policy table q) := by
  refine ⟨fun table table' => ?_, fun table table' hagree => ?_, fun table name types => ?_⟩
  · exact tune_eq_of_alike_iff policy q table table'
  · rw [tune_eq_of_alike_iff]
    intro f c hmem hf
    obtain ⟨hpartition, hvalues⟩ := hagree f c hmem hf
    exact policy.alike_of_eq (choose_eq_of_agree policy hpartition hvalues)
  · rw [tune_eq_of_alike_iff]
    intro f c hmem hf
    exact policy.alike_of_eq (choose_eq_of_agree policy
      (table.isPartitionColumn_recast name types c) (table.isMultiValued_recast name types c))

/-- Two tables that agree on `city` only. A query that selects a distinct count of `city`, and
    counts another column nested, in its condition and in a sort key, does not tell them apart. A
    query that selects a distinct count of the other column does, unless aggregations are
    approximate. -/
theorem tune_eq_tune_iff_sample :
    let columns : Std.ExtTreeSet String := (∅ : Std.ExtTreeSet String).insert "city"
    let schema : Schema := ({ name := "s" } : Schema).add (.multiValued "tag" .string)
    let table : Table := { name := "t", partitionColumns := columns, schema := some schema }
    let table' : Table := { partitionColumns := columns }
    let count : Expr := .call "distinctcount" [.identifier "tag"]
    let q : Query :=
      { select := [.call "Distinct_Count" [.identifier "city"], .call "plus" [count]]
        having := some count, orderBy := [{ expr := count }] }
    ((∀ f c, .call f [.identifier c] ∈ q.select → canonicalName f = FunctionName.distinctCount →
        table.isPartitionColumn c = table'.isPartitionColumn c ∧
          table.isMultiValued c = table'.isMultiValued c) ∧
      tune {} table q = tune {} table' q) ∧
    tune {} table { select := [count] } ≠ tune {} table' { select := [count] } ∧
    tune { approximate := true } table { select := [count] }
      = tune { approximate := true } table' { select := [count] } := by
  intro columns schema table table' count q
  have hagree : ∀ f c, .call f [.identifier c] ∈ q.select →
      canonicalName f = FunctionName.distinctCount →
      table.isPartitionColumn c = table'.isPartitionColumn c ∧
        table.isMultiValued c = table'.isMultiValued c := by
    intro f c hmem _
    -- Of the two selected calls, only the first one has a column as its operand.
    have hc : f = "Distinct_Count" ∧ c = "city" := by
      simpa [q, count] using hmem
    obtain ⟨-, hc⟩ := hc
    subst hc
    simp only [table, table', columns, schema]
    decide +kernel
  have hchoose (approximate : Bool) :
      (CountingPlan.ofPolicy { approximate } table).choose "tag" = some "distinctcountmv" ∧
        (CountingPlan.ofPolicy { approximate } table').choose "tag" = none := by
    simp only [table, table', columns, schema]
    cases approximate <;> decide +kernel
  refine ⟨⟨hagree, (tune_eq_tune_iff {} q).2.1 table table' hagree⟩, ?_, ?_⟩
  · intro heq
    have halike := ((tune_eq_tune_iff {} { select := [count] }).1 table table').mp heq
      "distinctcount" "tag" (List.mem_singleton.mpr rfl) (by decide +kernel)
    have hsame : (CountingPlan.ofPolicy {} table).choose "tag"
        = (CountingPlan.ofPolicy {} table').choose "tag" := halike
    rw [(hchoose false).1, (hchoose false).2] at hsame
    cases hsame
  · refine ((tune_eq_tune_iff { approximate := true } { select := [count] }).1 table table').mpr ?_
    intro f c hmem _
    have hc : f = "distinctcount" ∧ c = "tag" := by
      simpa [count] using hmem
    obtain ⟨-, hc⟩ := hc
    subst hc
    -- Neither of the two choices is the count by segments.
    rw [(hchoose true).1, (hchoose true).2, Policy.Alike, if_pos rfl]
    decide

end QueryTuning
