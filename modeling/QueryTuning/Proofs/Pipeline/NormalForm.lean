import QueryTuning.Proofs.Pipeline.Fixpoint
import QueryTuning.Proofs.Rule.InTurn

/-!
# What a pipeline comes to

Built-in rules can stand in a pipeline in any order and any number of times. All of them together
come to three steps: a limit, one choice among distinct counts, and approximate aggregations.

* Where the rules that cap the limit stand makes no difference. All ceilings count, and for a query
  without a limit the first of the rules says which one it gets.
* Of the rules that rename distinct counts, the first one is heard that chooses something for a
  column, as long as it stands in front of all approximate aggregations. Behind them nothing is left
  to be renamed.
* Approximate aggregations are put in place once, however often the pipeline asks for them.

`BuiltinRule.normalForm` is the query that these steps make, and `Pipeline.run_eq_normalForm` says
that it is the one that a run makes.
-/

namespace QueryTuning

namespace BuiltinRule

variable {rules : List BuiltinRule}

/-! ## The description -/

/-- The ceiling and the standard limit of a rule that caps the limit. -/
def cap? : BuiltinRule → Option (UInt64 × UInt64)
  | capLimit ceiling standard => some (ceiling, standard)
  | countBySegment _ | countMultiValued _ | chooseCounts _ | substitute _ => none

/-- Whether a rule puts substitutes in place. -/
def isSubstituting : BuiltinRule → Bool
  | substitute _ => true
  | capLimit _ _ | countBySegment _ | countMultiValued _ | chooseCounts _ => false

/-- The limit behind all rules: the least of all ceilings and the limit of the query, for which the
    first rule that caps the limit has a standard. Without such a rule the limit stays. -/
def settledLimit (rules : List BuiltinRule) (limit : Option UInt64) : Option UInt64 :=
  match rules.filterMap cap? with
  | [] => limit
  | (ceiling, standard) :: caps => (limit.getD standard :: ceiling :: caps.map Prod.fst).min?

/-- The rules in front of the first one that puts substitutes in place. -/
def heard (rules : List BuiltinRule) : List BuiltinRule :=
  rules.takeWhile fun r => !r.isSubstituting

/-- An expression with approximate aggregations, if a rule puts them in place. -/
def approximated (rules : List BuiltinRule) (e : Expr) : Expr :=
  if rules.any isSubstituting then (Substitutes.approximate.substitute e).value else e

/-- **The normal form** of a query under some rules. -/
def normalForm (rules : List BuiltinRule) (q : Query) : Query where
  select := q.select.map fun e =>
    approximated rules (e.chooseCount (firstChoice (heard rules))).value
  having := q.having.map (approximated rules)
  orderBy := q.orderBy.map fun key => { key with expr := approximated rules key.expr }
  limit := settledLimit rules q.limit

/-! ## One rule in front of others -/

/-- A cap in front of others leaves a limit for them, so their standards do not count. -/
theorem settledLimit_capLimit (ceiling standard : UInt64) (rules : List BuiltinRule)
    (limit : Option UInt64) :
    settledLimit (capLimit ceiling standard :: rules) limit
      = settledLimit rules (some (cappedLimit ceiling standard limit)) := by
  have hcap : (capLimit ceiling standard).cap? = some (ceiling, standard) := rfl
  unfold settledLimit
  rw [List.filterMap_cons_some hcap]
  cases rules.filterMap cap? with
  | nil => rfl
  | cons cap caps => rfl

theorem settledLimit_cons_of_cap?_eq_none {r : BuiltinRule} (h : r.cap? = none)
    (limit : Option UInt64) : settledLimit (r :: rules) limit = settledLimit rules limit := by
  unfold settledLimit
  rw [List.filterMap_cons_none h]

theorem heard_nil : heard [] = [] := rfl

theorem heard_cons {r : BuiltinRule} (h : r.isSubstituting = false) :
    heard (r :: rules) = r :: heard rules := by
  simp [heard, h]

theorem approximated_cons {r : BuiltinRule} (h : r.isSubstituting = false) :
    approximated (r :: rules) = approximated rules := by
  funext e
  simp [approximated, h]

/-- Approximate aggregations are not approximated any further. -/
theorem approximated_approximate (rules : List BuiltinRule) (e : Expr) :
    approximated rules (Substitutes.approximate.substitute e).value
      = (Substitutes.approximate.substitute e).value := by
  unfold approximated
  split
  · -- The approximate aggregations are stable, and their flag is exact.
    have hsettled := Substitutes.approximate_stable.changed_substitute_value e
    exact (Substitutes.exact_substitute _ _).value_eq hsettled
  · rfl

/-- Nothing is chosen for what approximate aggregations leave behind. -/
theorem chooseCount_approximate (choose : String → Option String) (e : Expr) :
    ((Substitutes.approximate.substitute e).value.chooseCount choose).value
      = (Substitutes.approximate.substitute e).value := by
  rw [Expr.chooseCount_of_none, Adjusted.value_same]
  rw [Substitutes.countedColumn?_approximate]
  rfl

theorem normalForm_capLimit (ceiling standard : UInt64) (rules : List BuiltinRule) (q : Query) :
    normalForm (capLimit ceiling standard :: rules) q
      = normalForm rules ((capLimit ceiling standard).adjust q).value := by
  -- A cap is heard, but it chooses nothing.
  have hchoice : firstChoice (capLimit ceiling standard :: heard rules)
      = firstChoice (heard rules) := by
    rw [firstChoice_cons]
    rfl
  rw [adjust, Query.value_capLimit]
  unfold normalForm
  rw [heard_cons rfl, approximated_cons rfl, hchoice, settledLimit_capLimit]

theorem normalForm_of_isCounting {r : BuiltinRule} (h : r.isCounting) (rules : List BuiltinRule)
    (q : Query) : normalForm (r :: rules) q = normalForm rules (r.adjust q).value := by
  have hsubstituting : r.isSubstituting = false := by
    cases r <;> first | rfl | cases h
  have hcap : r.cap? = none := by
    cases r <;> first | rfl | cases h
  -- The rule and those behind it act on a selected expression as a single choice.
  have hselect : ∀ e : Expr,
      (e.chooseCount (firstChoice (r :: heard rules))).value
        = ((e.chooseCount r.choice).value.chooseCount (firstChoice (heard rules))).value := by
    intro e
    have hturn := Expr.chooseCount_andThen (firstChoice (heard rules)) r.finalChoice e
    rw [firstChoice_cons, ← hturn, Adjusted.value_andThen]
  rw [adjust_eq_chooseCounts h, Query.value_chooseCounts]
  unfold normalForm
  rw [heard_cons hsubstituting, approximated_cons hsubstituting,
    settledLimit_cons_of_cap?_eq_none hcap]
  simp only [hselect, List.map_map]
  rfl

theorem normalForm_substitute (rules : List BuiltinRule) (q : Query) :
    normalForm (substitute .approximate :: rules) q
      = normalForm rules ((substitute .approximate).adjust q).value := by
  have happrox : approximated (substitute .approximate :: rules)
      = fun e => (Substitutes.approximate.substitute e).value := by
    funext e
    simp [approximated, isSubstituting]
  -- From here on no rule is heard, and what the later ones could still do is done already.
  have hheard : heard (substitute .approximate :: rules) = [] := rfl
  rw [adjust, Query.substitute]
  unfold normalForm
  rw [happrox, hheard, settledLimit_cons_of_cap?_eq_none rfl]
  simp only [firstChoice_nil, Expr.chooseCount_none, Adjusted.value_same, Query.mapRoots,
    List.map_map, Option.map_map, Function.comp_def, chooseCount_approximate,
    approximated_approximate]

/-- **One rule in front of others** does to the normal form what it does to the query. -/
theorem normalForm_cons {r : BuiltinRule} (happrox : r.Approximate) (rules : List BuiltinRule)
    (q : Query) : normalForm (r :: rules) q = normalForm rules (r.adjust q).value := by
  cases r with
  | capLimit ceiling standard => exact normalForm_capLimit ceiling standard rules q
  | countBySegment columns => exact normalForm_of_isCounting rfl rules q
  | countMultiValued schema => exact normalForm_of_isCounting rfl rules q
  | chooseCounts plan => exact normalForm_of_isCounting rfl rules q
  | substitute s =>
    obtain rfl : s = .approximate := happrox s rfl
    exact normalForm_substitute rules q

theorem normalForm_nil (q : Query) : normalForm [] q = q := by
  have happrox : approximated [] = id := rfl
  unfold normalForm
  rw [happrox]
  simp only [id_eq, heard_nil, firstChoice_nil, Expr.chooseCount_none, Adjusted.value_same,
    List.map_id', Option.map_id]
  rfl

/-! ## All rules -/

/-- **Rules come to the normal form.** The induction is on the rules, with the first of them carried
    out on the query. -/
theorem adjustAll_eq_normalForm (happrox : ∀ r ∈ rules, r.Approximate) (q : Query) :
    adjustAll rules q = normalForm rules q := by
  induction rules generalizing q with
  | nil => exact (normalForm_nil q).symm
  | cons r rules ih =>
    have hr : r.Approximate := happrox r List.mem_cons_self
    have hrules : ∀ r ∈ rules, r.Approximate := by
      intro r hr
      exact happrox r (List.mem_cons_of_mem _ hr)
    rw [adjustAll_cons, normalForm_cons hr]
    exact ih hrules _

/-- Behind approximate aggregations, whatever else came before, in between or behind them, a rule
    that renames distinct counts has settled. -/
theorem settled_adjustAll_of_isSubstituting (happrox : ∀ r ∈ rules, r.Approximate)
    (hsub : rules.any isSubstituting) {r : BuiltinRule} (hr : r.isCounting) (q : Query) :
    r.Settled (adjustAll rules q) := by
  rw [settled_iff_of_isCounting hr, adjustAll_eq_normalForm happrox]
  intro e' he'
  obtain ⟨e, -, rfl⟩ := List.mem_map.mp he'
  rw [approximated, if_pos hsub, Substitutes.countedColumn?_approximate]
  rfl

end BuiltinRule

namespace Pipeline

open BuiltinRule

/-! ## Runs -/

/-- **A run comes to the normal form.**

    * For any built-in rules that know no substitutes but approximate aggregations, in any order and
      with any repetition, a run with room for a pass makes the normal form of its query.
    * Behind approximate aggregations a rule that renames distinct counts is quiet, whatever the
      query is and whatever other rules stand in between. -/
theorem run_eq_normalForm :
    (∀ (rules : List BuiltinRule) (p : Pipeline) (q : Query),
      p.rules = rules.map toRule → (∀ s, substitute s ∈ rules → s = .approximate) →
      q.select ≠ [] → 1 ≤ p.maxPasses →
      ∃ o, p.run q = .ok o ∧ o.query = normalForm rules q) ∧
    (∀ (before : List BuiltinRule) (r : BuiltinRule) (p : Pipeline) (q : Query),
      (∀ s, substitute s ∈ before → s = .approximate) → substitute .approximate ∈ before →
      r.isCounting = true →
      ∃ o, p.applyAll (before.map toRule) q = .ok o ∧
        r.toRule.apply o.query = .ok (.same o.query)) := by
  constructor
  · intro rules p q hp hsub hq hn
    have happrox : ∀ r ∈ rules, r.Approximate := fun r hr s hs => hsub s (hs ▸ hr)
    obtain ⟨once, -, hquery, hrun⟩ := run_eq_runOnce_of_builtin hp happrox hq hn
    refine ⟨_, hrun, ?_⟩
    show once.query = normalForm rules q
    rw [hquery]
    exact adjustAll_eq_normalForm happrox q
  · intro before r p q hsub hmem hr
    have happrox : ∀ r ∈ before, r.Approximate := fun r hr s hs => hsub s (hs ▸ hr)
    have hany : before.any isSubstituting = true :=
      List.any_eq_true.mpr ⟨substitute .approximate, hmem, rfl⟩
    obtain ⟨o, ho, hquery⟩ := p.applyAll_builtin before q
    refine ⟨o, ho, ?_⟩
    rw [hquery]
    exact (settled_adjustAll_of_isSubstituting happrox hany hr q).quiet

/-- A partitioned column is counted by segments in front of the approximate aggregations, and a
    column with several values comes too late behind them. The first cap says which limit stands in,
    and the second one has the lower ceiling. -/
theorem run_eq_normalForm_sample :
    let columns : Std.ExtTreeSet String := (∅ : Std.ExtTreeSet String).insert "city"
    let schema : Schema := ({ name := "s" } : Schema).add (.multiValued "tag" .string)
    let before : List BuiltinRule := [.countBySegment columns, .capLimit 50 30, .substitute]
    let late : BuiltinRule := .countMultiValued schema
    let rules : List BuiltinRule := before ++ [late, .capLimit 20 7]
    let p : Pipeline := { rules := rules.map toRule, maxPasses := 4 }
    let q : Query :=
      { select := [.call "DISTINCT_COUNT" [.identifier "tag"],
          .call "distinctCount" [.identifier "city"],
          .call "Percentile_90" [.call "distinctcount" [.identifier "city"]]]
        having := some (.call "percentile95mv" [.identifier "age"]) }
    let q' : Query :=
      { select := [.call "distinctcountsmarthll" [.identifier "tag"],
          .call "segmentpartitioneddistinctcount" [.identifier "city"],
          .call "percentilesmarttdigest"
            [.call "distinctcountsmarthll" [.identifier "city"], .literal (.int 90)]]
        having := some (.call "percentilesmarttdigest" [.identifier "age", .literal (.int 95)])
        limit := some 20 }
    (p.rules = rules.map toRule ∧ (∀ s, substitute s ∈ rules → s = .approximate) ∧
      q.select ≠ [] ∧ 1 ≤ p.maxPasses ∧ ∃ o, p.run q = .ok o ∧ o.query = q') ∧
    ((∀ s, substitute s ∈ before → s = .approximate) ∧ substitute .approximate ∈ before ∧
      late.isCounting = true ∧
      ∃ o, p.applyAll (before.map toRule) q = .ok o ∧
        late.toRule.apply o.query = .ok (.same o.query)) := by
  intro columns schema before late rules p q q'
  have hrules : ∀ s, substitute s ∈ rules → s = .approximate := by
    intro s hs
    simpa [rules, before, late] using hs
  have hbefore : ∀ s, substitute s ∈ before → s = .approximate := by
    intro s hs
    simpa [before] using hs
  have hmem : substitute .approximate ∈ before := by simp [before]
  have hq : q.select ≠ [] := List.cons_ne_nil _ _
  have hform : normalForm rules q = q' := by
    simp only [rules, before, late, columns, schema, q, q']
    decide +kernel
  obtain ⟨o, hrun, hquery⟩ := run_eq_normalForm.1 rules p q rfl hrules hq (by decide)
  refine ⟨⟨rfl, hrules, hq, by decide, o, hrun, hquery.trans hform⟩, hbefore, hmem, rfl, ?_⟩
  exact run_eq_normalForm.2 before late p q hbefore hmem rfl

end Pipeline

end QueryTuning
