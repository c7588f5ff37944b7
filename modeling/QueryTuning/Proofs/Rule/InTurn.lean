import QueryTuning.Proofs.Rule.Choice

/-!
# Rules in turn

Rules that rename distinct counts get in each other's way: what the first one has renamed, no other
one knows any more. Taken in turn they act as a single choice, in which the first rule that chooses
something for a column is heard.

* `Adjusted.andThen` : one adjustment behind another.
* `BuiltinRule.adjustInTurn`, `BuiltinRule.firstChoice` : rules in turn, and what they choose.
* `BuiltinRule.adjustInTurn_of_counting` : rules in turn act as that choice.
* `CountingPlan.singleRules` : the rules that a plan stands for, the preferred one first.
* `CountingPlan.adjust_refines_singleRules` : a plan does what its rules do in turn, and the order
  of two rules matters exactly where both choose.
-/

namespace QueryTuning

/-! ## One adjustment behind another -/

namespace Adjusted

variable {α : Type}

/-- Adjusts again what was adjusted before. It is changed if it was changed at either time. -/
def andThen (a : Adjusted α) (next : α → Adjusted α) : Adjusted α :=
  ⟨(next a.value).value, a.changed || (next a.value).changed⟩

@[simp] theorem value_andThen (a : Adjusted α) (next : α → Adjusted α) :
    (a.andThen next).value = (next a.value).value := rfl

theorem same_andThen (a : α) (next : α → Adjusted α) : (same a).andThen next = next a := by
  simp [andThen]

/-- A list is adjusted twice by adjusting each member twice. -/
theorem ofList_andThen (f g : α → Adjusted α) (as : List α) :
    (ofList (as.map f)).andThen (fun bs => ofList (bs.map g))
      = ofList (as.map fun a => (f a).andThen g) := by
  simp only [andThen, ofList, List.map_map, List.any_map, Function.comp_def, mk.injEq, true_and]
  -- Some member changes at some time, in whichever order the two are asked for.
  induction as with
  | nil => rfl
  | cons a as ih =>
    simp only [List.any_cons, ← ih]
    cases (f a).changed <;> cases (g (f a).value).changed <;> simp

end Adjusted

namespace Expr

theorem chooseCount_none (e : Expr) : e.chooseCount (fun _ => none) = .same e := by
  apply chooseCount_of_none
  cases e.countedColumn? <;> rfl

theorem bind_countedColumn?_or (first second : String → Option String) (e : Expr) :
    e.countedColumn?.bind (fun c => (first c).or (second c))
      = (e.countedColumn?.bind first).or (e.countedColumn?.bind second) := by
  cases e.countedColumn? <;> rfl

/-- **Two choices in turn are one choice**: the second one is heard where the first one chooses
    nothing. -/
theorem chooseCount_andThen {first : String → Option String} (second : String → Option String)
    (hfinal : FinalChoice first) (e : Expr) :
    (e.chooseCount first).andThen (chooseCount second)
      = e.chooseCount fun c => (first c).or (second c) := by
  cases hfirst : e.countedColumn?.bind first with
  | none =>
    rw [chooseCount_of_none hfirst, Adjusted.same_andThen]
    simp [chooseCount, bind_countedColumn?_or, hfirst]
  | some t =>
    -- The column is not counted any more, so the second choice is not asked.
    have hnone : (e.chooseCount first).value.countedColumn? = none :=
      countedColumn?_chooseCount hfinal hfirst
    have hsecond : (e.chooseCount first).value.chooseCount second
        = .same (e.chooseCount first).value :=
      chooseCount_of_none (by rw [hnone]; rfl)
    unfold Adjusted.andThen
    rw [hsecond]
    simp [chooseCount, bind_countedColumn?_or, hfirst, Adjusted.into]

/-- Which of two choices is heard first makes no difference exactly if they choose the same wherever
    both choose something. -/
theorem value_chooseCount_or_comm_iff (first second : String → Option String) (e : Expr) :
    (e.chooseCount fun c => (first c).or (second c)).value
        = (e.chooseCount fun c => (second c).or (first c)).value
      ↔ ∀ t u, e.countedColumn?.bind first = some t → e.countedColumn?.bind second = some u →
          t = u := by
  unfold chooseCount
  rw [bind_countedColumn?_or, bind_countedColumn?_or]
  cases hfirst : e.countedColumn?.bind first with
  | none => simp
  | some t =>
    cases hsecond : e.countedColumn?.bind second with
    | none => simp
    | some u =>
      -- Both choose, so it is the name of the call that tells which one was heard.
      obtain ⟨c, hc, -⟩ := Option.bind_eq_some_iff.mp hfirst
      obtain ⟨f, rfl, -⟩ := countedColumn?_eq_some hc
      simp [rename]

end Expr

namespace Query

theorem chooseCounts_andThen {first : String → Option String} (second : String → Option String)
    (hfinal : Expr.FinalChoice first) (q : Query) :
    (q.chooseCounts first).andThen (chooseCounts second)
      = q.chooseCounts fun c => (first c).or (second c) := by
  have hselect :=
    Adjusted.ofList_andThen (Expr.chooseCount first) (Expr.chooseCount second) q.select
  have hexpr : (fun e : Expr => (e.chooseCount first).andThen (Expr.chooseCount second))
      = Expr.chooseCount fun c => (first c).or (second c) := by
    funext e
    exact Expr.chooseCount_andThen second hfinal e
  rw [hexpr] at hselect
  -- Nothing but the select list is looked at.
  simp only [chooseCounts, ← hselect]
  rfl

/-- **The order of two choices** makes no difference exactly if they choose the same wherever both
    choose something for a selected distinct count. -/
theorem value_chooseCounts_comm_iff {first second : String → Option String}
    (hfirst : Expr.FinalChoice first) (hsecond : Expr.FinalChoice second) (q : Query) :
    ((q.chooseCounts first).value.chooseCounts second).value
        = ((q.chooseCounts second).value.chooseCounts first).value
      ↔ ∀ e ∈ q.select, ∀ t u, e.countedColumn?.bind first = some t →
          e.countedColumn?.bind second = some u → t = u := by
  -- In either order the two act as one choice, and the two choices are compared by expression.
  have hforth := congrArg Adjusted.value (chooseCounts_andThen second hfirst q)
  have hback := congrArg Adjusted.value (chooseCounts_andThen first hsecond q)
  rw [Adjusted.value_andThen] at hforth hback
  rw [hforth, hback, value_chooseCounts, value_chooseCounts]
  simp only [mk.injEq, and_true, List.map_inj_left, Expr.value_chooseCount_or_comm_iff]

theorem chooseCounts_none (q : Query) : q.chooseCounts (fun _ => none) = .same q := by
  have hselect :
      Adjusted.ofList (q.select.map (Expr.chooseCount fun _ => none)) = .same q.select := by
    rw [funext Expr.chooseCount_none]
    simp [Adjusted.ofList, Adjusted.same, Function.comp_def]
  unfold chooseCounts
  rw [hselect]
  rfl

end Query

/-! ## Rules in turn -/

namespace BuiltinRule

/-- What rules make of a query one after another, and whether any of them changed anything. -/
def adjustInTurn : List BuiltinRule → Query → Adjusted Query
  | [], q => .same q
  | r :: rules, q => (r.adjust q).andThen (adjustInTurn rules)

/-- The choice of the first rule that chooses something for a column. -/
def firstChoice (rules : List BuiltinRule) (c : String) : Option String :=
  rules.findSome? (·.choice c)

theorem firstChoice_nil : firstChoice [] = fun _ => none := rfl

theorem firstChoice_cons (r : BuiltinRule) (rules : List BuiltinRule) :
    firstChoice (r :: rules) = fun c => (r.choice c).or (firstChoice rules c) := by
  funext c
  unfold firstChoice
  rw [List.findSome?_cons]
  cases r.choice c <;> rfl

/-- **Rules that rename distinct counts act as one choice in turn**, in which the first of them is
    heard that chooses something. -/
theorem adjustInTurn_of_counting {rules : List BuiltinRule} (h : ∀ r ∈ rules, r.isCounting)
    (q : Query) : adjustInTurn rules q = q.chooseCounts (firstChoice rules) := by
  induction rules generalizing q with
  | nil => exact q.chooseCounts_none.symm
  | cons r rules ih =>
    have hrest : adjustInTurn rules = Query.chooseCounts (firstChoice rules) := by
      funext q
      exact ih (fun r hr => h r (List.mem_cons_of_mem _ hr)) q
    have hr : r.adjust q = q.chooseCounts r.choice :=
      adjust_eq_chooseCounts (h r List.mem_cons_self) q
    rw [adjustInTurn, hrest, hr, firstChoice_cons]
    exact Query.chooseCounts_andThen _ r.finalChoice q

end BuiltinRule

/-! ## The rules of a plan -/

/-- Without a schema no column is known to hold several values, as in a schema without columns. -/
theorem Table.isMultiValued_eq (t : Table) (name c : String) :
    t.isMultiValued c = (t.schema.getD { name }).isMultiValued c := by
  unfold Table.isMultiValued
  cases t.schema with
  | none => simp [Schema.isMultiValued, Schema.cardinality, Schema.column?]
  | some s => rfl

namespace CountingPlan

/-- The rules that a plan stands for, as far as it allows them, the preferred one first. Where the
    table has no schema, an empty one of any name takes its place. -/
def singleRules (plan : CountingPlan) (name : String) : List BuiltinRule :=
  let bySegment : List BuiltinRule :=
    if plan.segmentPartitioned then [.countBySegment plan.table.partitionColumns] else []
  let multiValued : List BuiltinRule :=
    if plan.multiValued then [.countMultiValued (plan.table.schema.getD { name })] else []
  match plan.precedence with
  | .segmentPartitioned => bySegment ++ multiValued
  | .multiValue => multiValued ++ bySegment

theorem isCounting_of_mem_singleRules (plan : CountingPlan) (name : String) :
    ∀ r ∈ plan.singleRules name, r.isCounting := by
  intro r hr
  unfold singleRules at hr
  cases plan.segmentPartitioned <;> cases plan.multiValued <;> cases plan.precedence <;>
    simp at hr <;> grind [BuiltinRule.isCounting]

/-- A plan chooses what the first of its rules chooses. -/
theorem firstChoice_singleRules (plan : CountingPlan) (name : String) :
    BuiltinRule.firstChoice (plan.singleRules name) = plan.choose := by
  funext c
  have hsegment : plan.table.isPartitionColumn c = plan.table.partitionColumns.contains c := rfl
  have hvalues := plan.table.isMultiValued_eq name c
  unfold singleRules choose
  rw [hsegment, hvalues]
  -- Both sides depend on the settings of the plan and on what is known about the column.
  cases plan.segmentPartitioned <;> cases plan.multiValued <;> cases plan.precedence <;>
    simp only [Bool.false_eq_true, if_true, if_false, List.nil_append, List.cons_append,
      Bool.true_and, Bool.false_and, BuiltinRule.firstChoice_cons, BuiltinRule.firstChoice_nil,
      BuiltinRule.choice, Query.segmentChoice, Query.multiValuedChoice] <;>
    cases plan.table.partitionColumns.contains c <;>
    cases (plan.table.schema.getD { name }).isMultiValued c <;> rfl

/-- **A plan refines its rules**, and their order matters exactly where both of them choose.

    * What a plan makes of a query is what its rules make of it in turn, the preferred one first,
      and the plan changes something exactly if one of them does.
    * The count by segments and the count of several values can be taken in either order exactly if
      no selected distinct count of a single column is one that both of them would rename. -/
theorem adjust_refines_singleRules :
    (∀ (plan : CountingPlan) (name : String) (q : Query),
      (BuiltinRule.chooseCounts plan).toRule.apply q
        = .ok (BuiltinRule.adjustInTurn (plan.singleRules name) q)) ∧
    (∀ (columns : Std.ExtTreeSet String) (schema : Schema) (q : Query),
      ((q.countBySegment columns).value.countMultiValued schema).value
          = ((q.countMultiValued schema).value.countBySegment columns).value
        ↔ ¬ ∃ f c, .call f [.identifier c] ∈ q.select ∧
            canonicalName f = FunctionName.distinctCount ∧
            columns.contains c = true ∧ schema.isMultiValued c = true) := by
  constructor
  · intro plan name q
    rw [BuiltinRule.adjustInTurn_of_counting (plan.isCounting_of_mem_singleRules name) q,
      plan.firstChoice_singleRules name]
    rfl
  · intro columns schema q
    have hcomm := Query.value_chooseCounts_comm_iff
      (BuiltinRule.countBySegment columns).finalChoice
      (BuiltinRule.countMultiValued schema).finalChoice q
    refine hcomm.trans ⟨fun h => ?_, fun h => ?_⟩
    · rintro ⟨f, c, hmem, hf, hcolumns, hschema⟩
      have hc := Expr.countedColumn?_call c hf
      -- The two functions that would be chosen are different ones.
      have hsame : FunctionName.segmentPartitionedDistinctCount = FunctionName.distinctCountMV := by
        apply h _ hmem
        · rw [hc]
          exact if_pos hcolumns
        · rw [hc]
          exact if_pos hschema
      exact absurd hsame (by decide)
    · intro e he t u ht hu
      obtain ⟨c, hc, hcolumns⟩ := Option.bind_eq_some_iff.mp ht
      obtain ⟨f, rfl, hf⟩ := Expr.countedColumn?_eq_some hc
      rw [hc] at hu
      refine absurd ⟨f, c, he, hf, ?_, ?_⟩ h
      · exact (Option.ite_none_right_eq_some.mp hcolumns).1
      · exact (Option.ite_none_right_eq_some.mp hu).1

end CountingPlan

end QueryTuning
