import QueryTuning.Proofs.Rule.Settled

/-!
# One pass is enough

A pipeline of built-in rules, in any order and with any repetition, comes to rest after a single
pass. A run makes a second pass only to find that nothing is left to do.

* `BuiltinRule.settled_adjustAll` : behind a pass every rule has settled.
* `Pipeline.run_eq_runOnce_of_builtin` : a run has the result of a single pass.
* `Pipeline.one_pass_suffices` : so nothing is left to do behind it.
-/

namespace QueryTuning

namespace BuiltinRule

variable {rules : List BuiltinRule} {q : Query}

/-! ## Built-in rules in order -/

/-- What built-in rules make of a query, one after another. -/
def adjustAll (rules : List BuiltinRule) (q : Query) : Query :=
  rules.foldl (fun q r => (r.adjust q).value) q

/-- The first rule comes first. -/
theorem adjustAll_cons (r : BuiltinRule) (rules : List BuiltinRule) (q : Query) :
    adjustAll (r :: rules) q = adjustAll rules (r.adjust q).value := rfl

/-- A rule keeps the number of expressions that are selected. -/
theorem length_select_adjust (r : BuiltinRule) (q : Query) :
    (r.adjust q).value.select.length = q.select.length := by
  rcases r.kinds with ⟨ceiling, standard, rfl⟩ | hcount | ⟨s, rfl⟩
  · rw [adjust, Query.value_capLimit]
  · rw [adjust_eq_chooseCounts hcount, Query.value_chooseCounts, List.length_map]
  · exact List.length_map _

/-- Rules keep the number of expressions that are selected. -/
theorem length_select_adjustAll (rules : List BuiltinRule) (q : Query) :
    (adjustAll rules q).select.length = q.select.length := by
  induction rules generalizing q with
  | nil => rfl
  | cons r rules ih => rw [adjustAll_cons, ih, length_select_adjust]

/-- A rule that has settled is still settled behind any number of rules. -/
theorem Settled.adjustAll {r : BuiltinRule} (hr : r.Approximate) (h : r.Settled q)
    (happrox : ∀ next ∈ rules, next.Approximate) : r.Settled (adjustAll rules q) := by
  induction rules generalizing q with
  | nil => exact h
  | cons next rules ih =>
    have hnext : r.Settled (next.adjust q).value := h.adjust hr (happrox next List.mem_cons_self)
    exact ih hnext fun r hr => happrox r (List.mem_cons_of_mem _ hr)

/-- **Behind all rules every rule has settled.** The induction is on the rules: the first one
    settles on its own result, and the others do not unsettle it. -/
theorem settled_adjustAll (happrox : ∀ r ∈ rules, r.Approximate) (q : Query) :
    ∀ r ∈ rules, r.Settled (adjustAll rules q) := by
  induction rules generalizing q with
  | nil => simp
  | cons head rules ih =>
    have hhead : head.Approximate := happrox head List.mem_cons_self
    have htail : ∀ r ∈ rules, r.Approximate := fun r hr => happrox r (List.mem_cons_of_mem _ hr)
    intro r hr
    rcases List.mem_cons.mp hr with rfl | hr
    · -- The others come behind it and do not unsettle it.
      have hself : r.Settled (r.adjust q).value := settled_adjust_self hhead q
      rw [adjustAll_cons]
      exact hself.adjustAll hhead htail
    · exact ih htail _ r hr

end BuiltinRule

namespace Pipeline

open BuiltinRule

variable {p : Pipeline} {rules : List BuiltinRule} {q : Query}

/-! ## Runs -/

/-- A built-in rule never refuses a query. -/
theorem step_builtin (p : Pipeline) (r : BuiltinRule) (q : Query) :
    ∃ o, p.step r.toRule q = .ok o ∧ o.query = (r.adjust q).value := by
  cases hc : (r.adjust q).changed with
  | false =>
    refine ⟨{ query := (r.adjust q).value }, ?_, rfl⟩
    simp [step, toRule, hc, bind, Except.bind, pure, Except.pure]
  | true =>
    simp only [step, toRule, hc, bind, Except.bind, pure, Except.pure, if_true]
    exact ⟨_, rfl, rfl⟩

/-- Built-in rules adjust a query one after another, and none of them ever refuses it. -/
theorem applyAll_builtin (p : Pipeline) (rules : List BuiltinRule) (q : Query) :
    ∃ o, p.applyAll (rules.map toRule) q = .ok o ∧ o.query = adjustAll rules q := by
  induction rules generalizing q with
  | nil => exact ⟨_, rfl, rfl⟩
  | cons r rules ih =>
    obtain ⟨first, hfirst, hquery⟩ := p.step_builtin r q
    obtain ⟨rest, hrest, hrestQuery⟩ := ih first.query
    refine ⟨first.andThen rest, ?_, ?_⟩
    · simp [applyAll, hfirst, hrest, bind, Except.bind, pure, Except.pure]
    · rw [adjustAll_cons, ← hquery]
      exact hrestQuery

/-- On a query where every rule has settled, every rule of the pipeline is quiet. -/
theorem quiet_of_settled (hp : p.rules = rules.map toRule) (h : ∀ r ∈ rules, r.Settled q) :
    ∀ rule ∈ p.rules, rule.Quiet q := by
  intro rule hrule
  rw [hp] at hrule
  obtain ⟨r, hr, rfl⟩ := List.mem_map.mp hrule
  exact (h r hr).quiet

/-- **A run has the result of its first pass.** Only if that pass changed something and there is
    room for another one, another one is made, and counted. -/
theorem run_eq_runOnce_of_builtin (hp : p.rules = rules.map toRule)
    (happrox : ∀ r ∈ rules, r.Approximate) (hq : q.select ≠ []) (hn : 1 ≤ p.maxPasses) :
    ∃ once, p.runOnce q = .ok once ∧ once.query = adjustAll rules q ∧
      p.run q = .ok { once with
        passes := if once.applied = 0 ∨ p.maxPasses = 1 then 1 else 2 } := by
  obtain ⟨all, hall, hquery⟩ := p.applyAll_builtin rules q
  have hpass : p.pass q = .ok { all with passes := 1 } := by
    simp [pass, hp, hall, bind, Except.bind, pure, Except.pure]
  refine ⟨{ all with passes := 1 }, (p.runOnce_eq_pass hq).trans hpass, hquery, ?_⟩
  obtain ⟨n, hmax⟩ : ∃ n, p.maxPasses = n + 1 := ⟨p.maxPasses - 1, by omega⟩
  rw [p.run_eq_passes hq, hmax]
  by_cases hzero : all.applied = 0
  · simp only [hzero, true_or, if_true]
    rw [passes_succ_of_applied_eq_zero hpass hzero, hzero]
  · -- Whatever the first pass has changed, a second one finds nothing to do.
    have hquiet : ∀ rule ∈ p.rules, rule.Quiet all.query :=
      quiet_of_settled hp (hquery ▸ settled_adjustAll happrox q)
    rw [passes_succ_of_applied_ne_zero hpass hzero]
    cases n with
    | zero => simp [passes, Except.map, Outcome.andThen]
    | succ n =>
      have hsecond : p.passes (n + 1) all.query = .ok { query := all.query, passes := 1 } :=
        passes_succ_of_applied_eq_zero (p.pass_of_quiet hquiet) rfl
      simp [hsecond, hzero, Except.map, Outcome.andThen]

/-- Where every rule has settled, a run makes one pass and changes nothing. -/
theorem run_of_settled (hp : p.rules = rules.map toRule) (h : ∀ r ∈ rules, r.Settled q)
    (hq : q.select ≠ []) (hn : 1 ≤ p.maxPasses) :
    p.run q = .ok { query := q, passes := 1 } := by
  obtain ⟨n, hmax⟩ : ∃ n, p.maxPasses = n + 1 := ⟨p.maxPasses - 1, by omega⟩
  rw [p.run_eq_passes hq, hmax]
  exact passes_succ_of_applied_eq_zero (p.pass_of_quiet (quiet_of_settled hp h)) rfl

/-! ## The pipeline of a policy -/

/-- The only substitutes that a policy knows are approximate aggregations. -/
theorem approximate_of_mem_rulesForTable (policy : Policy) (table : Table) :
    ∀ r ∈ rulesForTable policy table, r.Approximate := by
  intro r hr s hs
  subst hs
  simp only [rulesForTable, List.mem_append, List.mem_singleton, reduceCtorEq, false_or] at hr
  rcases hr with hr | hr
  · split at hr <;> simp at hr
  · split at hr
    · simpa using hr
    · simp at hr

/-- The pipeline of a policy has room for a pass. -/
theorem one_le_maxPasses {policy : Policy} {table : Table} :
    1 ≤ (forTable policy table).maxPasses := by
  show 1 ≤ 16
  decide

/-- A query that was tuned is what the rules of the policy make of it. -/
theorem tune_eq_adjustAll (policy : Policy) (table : Table) (hq : q.select ≠ []) :
    tune policy table q = .ok (adjustAll (rulesForTable policy table) q) := by
  obtain ⟨once, -, hquery, hrun⟩ := run_eq_runOnce_of_builtin (p := forTable policy table) rfl
    (approximate_of_mem_rulesForTable policy table) hq one_le_maxPasses
  simp [tune, hrun, hquery, bind, Except.bind, pure, Except.pure]

/-- A query that selects nothing is not tuned. -/
theorem tune_of_select_eq_nil (policy : Policy) (table : Table) (hq : q.select = []) :
    tune policy table q = .error .emptySelect := by
  simp [tune, run_of_select_eq_nil _ hq, bind, Except.bind]

/-! ## The result -/

/-- **One pass is enough.**

    * For any built-in rules that know no substitutes but approximate aggregations, in any order
      and with any repetition, a run succeeds with the query and the count of a single pass. Every
      rule is quiet on that query. With room for two passes, the run makes two of them, unless the
      first one changed nothing.
    * Tuning a query that was tuned, to the same policy on the same table, changes nothing. -/
theorem one_pass_suffices :
    (∀ (rules : List BuiltinRule) (p : Pipeline) (q : Query),
      p.rules = rules.map toRule → (∀ s, substitute s ∈ rules → s = .approximate) →
      q.select ≠ [] → 1 ≤ p.maxPasses →
      ∃ o once, p.run q = .ok o ∧ p.runOnce q = .ok once ∧
        o.query = once.query ∧ o.applied = once.applied ∧
        (∀ r ∈ rules, r.toRule.apply o.query = .ok (.same o.query)) ∧
        (2 ≤ p.maxPasses → o.passes = if o.applied = 0 then 1 else 2)) ∧
    (∀ (policy : Policy) (table : Table) (q q' : Query), tune policy table q = .ok q' →
      tune policy table q' = .ok q' ∧
      (forTable policy table).run q' = .ok { query := q', passes := 1, applied := 0 }) := by
  constructor
  · intro rules p q hp hsub hq hn
    have happrox : ∀ r ∈ rules, r.Approximate := fun r hr s hs => hsub s (hs ▸ hr)
    obtain ⟨once, honce, hquery, hrun⟩ := run_eq_runOnce_of_builtin hp happrox hq hn
    refine ⟨_, once, hrun, honce, rfl, rfl, fun r hr => ?_, fun htwo => ?_⟩
    · exact (hquery ▸ settled_adjustAll happrox q r hr : r.Settled once.query).quiet
    · have hne : p.maxPasses ≠ 1 := by omega
      simp [hne]
  · intro policy table q q' htune
    have hq : q.select ≠ [] := by
      intro hnil
      rw [tune_of_select_eq_nil policy table hnil] at htune
      cases htune
    rw [tune_eq_adjustAll policy table hq, Except.ok.injEq] at htune
    have hsettled : ∀ r ∈ rulesForTable policy table, r.Settled q' :=
      htune ▸ settled_adjustAll (approximate_of_mem_rulesForTable policy table) q
    have hq' : q'.select ≠ [] := by
      rw [← List.length_pos_iff, ← htune, length_select_adjustAll, List.length_pos_iff]
      exact hq
    have hrun : (forTable policy table).run q' = .ok { query := q', passes := 1 } :=
      run_of_settled rfl hsettled hq' one_le_maxPasses
    refine ⟨?_, hrun⟩
    simp [tune, hrun, bind, Except.bind, pure, Except.pure]

/-- Six rules that get in each other's way come to rest after one pass, and so does the pipeline of
    a policy. -/
theorem one_pass_suffices_sample :
    let columns : Std.ExtTreeSet String := (∅ : Std.ExtTreeSet String).insert "city"
    let rules : List BuiltinRule :=
      [.capLimit 50, .countBySegment columns, .substitute, .countMultiValued { name := "s" },
        .capLimit 20 7, .substitute]
    let p : Pipeline := { rules := rules.map toRule, maxPasses := 3 }
    let q : Query :=
      { select := [.call "DISTINCT_COUNT" [.identifier "city"],
          .call "Percentile95MV" [.call "distinctCount" [.identifier "age"]]] }
    let q' : Query :=
      { select := [.call "distinctcountsmarthll" [.identifier "city"],
          .call "percentilesmarttdigest"
            [.call "distinctcountsmarthll" [.identifier "age"], .literal (.int 95)]]
        limit := some 10 }
    ((∀ s, substitute s ∈ rules → s = .approximate) ∧ q.select ≠ [] ∧ 1 ≤ p.maxPasses ∧
      ∃ o, p.run q = .ok o ∧ ∀ r ∈ rules, r.toRule.apply o.query = .ok (.same o.query)) ∧
    tune { approximate := true } {} q = .ok q' ∧ tune { approximate := true } {} q' = .ok q' := by
  intro columns rules p q q'
  have hsub : ∀ s, substitute s ∈ rules → s = .approximate := by
    intro s hs
    simpa [rules] using hs
  have hq : q.select ≠ [] := List.cons_ne_nil _ _
  obtain ⟨o, once, hrun, -, -, -, hquiet, -⟩ :=
    one_pass_suffices.1 rules p q rfl hsub hq (by decide)
  have hadjust : adjustAll (rulesForTable { approximate := true } {}) q = q' := by
    simp only [q, q']
    decide +kernel
  have htune : tune { approximate := true } {} q = .ok q' := by
    rw [tune_eq_adjustAll _ _ hq, hadjust]
  exact ⟨⟨hsub, hq, by decide, o, hrun, hquiet⟩, htune,
    (one_pass_suffices.2 _ _ q q' htune).1⟩

end Pipeline

end QueryTuning
