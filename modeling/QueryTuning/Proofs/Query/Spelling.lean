import QueryTuning.Proofs.Expr.Spelling
import QueryTuning.Proofs.Query.Tuned

/-!
# Tuning does not depend on spelling

Every rule looks at function names in their canonical form, and the names that rules put in place
are canonical. So it makes no difference whether names are made canonical before tuning or behind
it, and queries that differ in the spelling of names are tuned alike.

* `Query.canonical` : a query with every function under its canonical name.
* `Query.RespelledAs` : queries that differ in the spelling of function names only.
* `Policy.tuned_canonical` : canonical names go through tuning.
* `tune_canonical` : what that means for `tune`.
-/

namespace QueryTuning

/-! ## Queries -/

namespace Query

/-- A query with every function under its canonical name. -/
def canonical (q : Query) : Query := q.mapRoots Expr.canonical

/-- **A query is respelled as another one** if they differ in the spelling of function names
    only. -/
structure RespelledAs (q q' : Query) : Prop where
  /-- What is selected is respelled one by one. -/
  select : List.Forall₂ Expr.RespelledAs q.select q'.select
  /-- The condition is respelled, if there is one. -/
  having : Option.Rel Expr.RespelledAs q.having q'.having
  /-- The sort keys are respelled one by one, with the same directions. -/
  orderBy : List.Forall₂
    (fun k k' => k.expr.RespelledAs k'.expr ∧ k.direction = k'.direction) q.orderBy q'.orderBy
  /-- The limit is the same. -/
  limit : q.limit = q'.limit

end Query

/-- Lists agree under a function exactly if their members do, one by one. -/
theorem map_eq_map_iff_forall₂ {α β : Type} {f : α → β} {as bs : List α} :
    as.map f = bs.map f ↔ List.Forall₂ (fun a b => f a = f b) as bs := by
  rw [← List.forall₂_eq_eq_eq, List.forall₂_map_left_iff, List.forall₂_map_right_iff]

namespace Query

variable {q q' : Query}

/-- **Queries are respelled as one another** exactly if they have one canonical form. -/
theorem respelledAs_iff : q.RespelledAs q' ↔ q.canonical = q'.canonical := by
  have hexpr : Expr.RespelledAs = fun e d => e.canonical = d.canonical := by
    funext e d
    exact propext Expr.respelledAs_iff
  have hselect : q.select.map Expr.canonical = q'.select.map Expr.canonical
      ↔ List.Forall₂ Expr.RespelledAs q.select q'.select := by
    rw [map_eq_map_iff_forall₂, hexpr]
  have hhaving : q.having.map Expr.canonical = q'.having.map Expr.canonical
      ↔ Option.Rel Expr.RespelledAs q.having q'.having := by
    cases q.having <;> cases q'.having <;> simp [Expr.respelledAs_iff]
  have horderBy : (q.orderBy.map fun k => { k with expr := k.expr.canonical })
        = (q'.orderBy.map fun k => { k with expr := k.expr.canonical })
      ↔ List.Forall₂ (fun k k' => k.expr.RespelledAs k'.expr ∧ k.direction = k'.direction)
          q.orderBy q'.orderBy := by
    rw [map_eq_map_iff_forall₂]
    simp only [Expr.respelledAs_iff, SortKey.mk.injEq]
  unfold canonical mapRoots
  rw [Query.mk.injEq, hselect, hhaving, horderBy]
  constructor
  · intro h
    exact ⟨h.select, h.having, h.orderBy, h.limit⟩
  · rintro ⟨hselect, hhaving, horderBy, hlimit⟩
    exact ⟨hselect, hhaving, horderBy, hlimit⟩

/-- A query selects as much as before. -/
theorem select_ne_nil_canonical (h : q.select ≠ []) : q.canonical.select ≠ [] := by
  intro hnil
  exact h (List.map_eq_nil_iff.mp hnil)

end Query

/-! ## Names that rules look at and put in place -/

namespace Expr

/-- A call is recognised by the canonical name of its function. -/
theorem isCallOf_canonical (name : String) (e : Expr) :
    e.canonical.isCallOf name = e.isCallOf name := by
  cases e with
  | literal v => rfl
  | identifier x => rfl
  | call f es => simp [isCallOf, canonicalOperator?, operator?, canonicalName_canonicalName]

/-- A lone column is an operand before and behind, and no other operand becomes one. -/
theorem onlyColumn?_canonical (e : Expr) : e.canonical.onlyColumn? = e.onlyColumn? := by
  cases e with
  | literal v => rfl
  | identifier x => rfl
  | call f es =>
    rw [canonical_call]
    cases es with
    | nil => rfl
    | cons d ds =>
      cases ds with
      | nil => cases d <;> simp [onlyColumn?]
      | cons d' ds => simp [onlyColumn?]

/-- A distinct count of a column is found under any spelling. -/
theorem countedColumn?_canonical (e : Expr) : e.canonical.countedColumn? = e.countedColumn? := by
  rw [countedColumn?, countedColumn?, isCallOf_canonical, onlyColumn?_canonical]

end Expr

namespace Substitutes

/-- A substitute is looked up by the canonical name. -/
theorem lookup_canonicalName (s : Substitutes) (f : String) :
    s.lookup (canonicalName f) = s.lookup f := by
  rw [lookup, lookup, canonicalName_canonicalName]

/-- Approximate aggregations have canonical names. -/
theorem canonicalName_target {f : String} {new : Substitution}
    (h : approximate.lookup f = some new) : canonicalName new.target = new.target := by
  have hall : ∀ t ∈ approximateTargets, canonicalName t = t := by decide +kernel
  exact hall new.target (target_mem_approximateTargets h)

/-- **Canonical names go through substitution.** The induction is on the expression; a call finds
    the same substitute under both names. -/
theorem value_substitute_canonical (e : Expr) :
    (approximate.substitute e.canonical).value = (approximate.substitute e).value.canonical := by
  induction e using Expr.inductionOn with
  | literal v => rfl
  | identifier x => rfl
  | call f es ih =>
    have hname : (approximate.lookup f).elim (canonicalName f) Substitution.target
        = canonicalName ((approximate.lookup f).elim f Substitution.target) := by
      cases hnew : approximate.lookup f with
      | none => rfl
      | some new => exact (canonicalName_target hnew).symm
    have hoperands : (es.map Expr.canonical).map (fun e => (approximate.substitute e).value)
        = (es.map fun e => (approximate.substitute e).value).map Expr.canonical := by
      rw [List.map_map, List.map_map]
      exact List.map_congr_left ih
    -- A number that is appended is a constant, whatever it comes behind.
    have happended : ∀ ns : Option Int64,
        (ns.toList.map (Expr.literal ∘ Literal.int)).map Expr.canonical
          = ns.toList.map (Expr.literal ∘ Literal.int) := by
      intro ns
      cases ns <;> rfl
    rw [Expr.canonical_call, value_substitute_call, value_substitute_call, Expr.canonical_call,
      lookup_canonicalName, hname, hoperands, List.map_append, happended]

end Substitutes

namespace Policy

variable (policy : Policy) (table : Table)

/-! ## Tuned queries -/

/-- A selected expression is renamed to the same function, however it is spelled. -/
theorem countTarget_canonical (e : Expr) :
    policy.countTarget table e.canonical = policy.countTarget table e := by
  rw [← bind_choose_eq_countTarget, ← bind_choose_eq_countTarget, Expr.countedColumn?_canonical]

/-- The functions that a distinct count is renamed to have canonical names. -/
theorem canonicalName_countTarget {e : Expr} {t : String}
    (h : policy.countTarget table e = some t) : canonicalName t = t := by
  rw [← bind_choose_eq_countTarget] at h
  obtain ⟨c, -, hchoose⟩ := Option.bind_eq_some_iff.mp h
  have hcases := BuiltinRule.target_of_choice (r := .chooseCounts (.ofPolicy policy table)) hchoose
  rcases hcases with rfl | rfl <;> decide +kernel

theorem approximated_canonical (e : Expr) :
    policy.approximated e.canonical = (policy.approximated e).canonical := by
  unfold approximated
  split
  · exact Substitutes.value_substitute_canonical e
  · rfl

/-- Canonical names go through the tuning of a root, if the name that it is given is canonical. -/
theorem tunedRoot_canonical {renamed : Option String}
    (hrenamed : ∀ t, renamed = some t → canonicalName t = t) (e : Expr) :
    policy.tunedRoot renamed e.canonical = (policy.tunedRoot renamed e).canonical := by
  have hrename : renamedTo renamed e.canonical = (renamedTo renamed e).canonical := by
    cases renamed with
    | none => rfl
    | some t =>
      have ht : canonicalName t = t := hrenamed t rfl
      cases e with
      | literal v => rfl
      | identifier x => rfl
      | call f es => simp [renamedTo, Expr.rename, ht]
  rw [tunedRoot, hrename, approximated_canonical]
  rfl

/-- **Canonical names go through tuning.** -/
theorem tuned_canonical (q : Query) :
    policy.tuned table q.canonical = (policy.tuned table q).canonical := by
  have hselect : ∀ e : Expr, policy.tunedRoot (policy.countTarget table e) e.canonical
      = (policy.tunedRoot (policy.countTarget table e) e).canonical := by
    intro e
    exact policy.tunedRoot_canonical (fun t => policy.canonicalName_countTarget table) e
  have hother : ∀ e : Expr, policy.tunedRoot none e.canonical
      = (policy.tunedRoot none e).canonical := by
    intro e
    exact policy.tunedRoot_canonical (fun t ht => by cases ht) e
  unfold tuned Query.canonical Query.mapRoots
  simp only [List.map_map, Option.map_map, Function.comp_def, countTarget_canonical, hselect,
    hother]

end Policy

/-! ## The result -/

/-- **Tuning does not depend on spelling.**

    * Tuning a query under canonical names succeeds, and gives the tuned query under canonical
      names.
    * Queries that differ in case and underscores of function names only are tuned to queries that
      differ in that way only. -/
theorem tune_canonical (policy : Policy) (table : Table) (q : Query) (hq : q.select ≠ []) :
    ∃ q', tune policy table q = .ok q' ∧ tune policy table q.canonical = .ok q'.canonical ∧
      ∀ r, q.RespelledAs r → ∃ r', tune policy table r = .ok r' ∧ q'.RespelledAs r' := by
  refine ⟨policy.tuned table q, tune_eq_ok policy table hq, ?_, fun r hr => ?_⟩
  · rw [tune_eq_ok policy table (Query.select_ne_nil_canonical hq), policy.tuned_canonical]
  · have hcanonical : q.canonical = r.canonical := Query.respelledAs_iff.mp hr
    have hrsel : r.select ≠ [] := by
      intro hnil
      have hlength := hr.select.length_eq
      rw [hnil] at hlength
      exact hq (List.eq_nil_of_length_eq_zero hlength)
    refine ⟨policy.tuned table r, tune_eq_ok policy table hrsel, Query.respelledAs_iff.mpr ?_⟩
    rw [← policy.tuned_canonical, hcanonical, policy.tuned_canonical]

/-- Two spellings of one query. A function that no rule knows keeps its spelling, and the others
    are the same behind tuning. -/
theorem tune_canonical_sample :
    let columns : Std.ExtTreeSet String := (∅ : Std.ExtTreeSet String).insert "city"
    let policy : Policy := { approximate := true }
    let table : Table := { partitionColumns := columns }
    let q : Query :=
      { select := [.call "DISTINCT_COUNT" [.identifier "city"],
          .call "Sum_Of" [.call "PERCENTILE_95mv" [.identifier "age"]]] }
    let r : Query :=
      { select := [.call "distinctCount" [.identifier "city"],
          .call "sumOf" [.call "percentile95_MV_" [.identifier "age"]]] }
    let tunedAs : String → Query := fun f =>
      { select := [.call "segmentpartitioneddistinctcount" [.identifier "city"],
          .call f [.call "percentilesmarttdigest" [.identifier "age", .literal (.int 95)]]]
        limit := some 10 }
    q.select ≠ [] ∧ q.RespelledAs r ∧ tune policy table q = .ok (tunedAs "Sum_Of") ∧
      tune policy table q.canonical = .ok (tunedAs "sumof") ∧
      tune policy table r = .ok (tunedAs "sumOf") ∧
      (tunedAs "Sum_Of").RespelledAs (tunedAs "sumOf") := by
  intro columns policy table q r tunedAs
  have hq : q.select ≠ [] := List.cons_ne_nil _ _
  have hr : q.RespelledAs r := by
    rw [Query.respelledAs_iff]
    decide +kernel
  obtain ⟨q', hq', hcanonical, hall⟩ := tune_canonical policy table q hq
  obtain ⟨r', hr', hrespelled⟩ := hall r hr
  have hqTuned : policy.tuned table q = tunedAs "Sum_Of" := by
    simp only [policy, table, columns, q, tunedAs]
    decide +kernel
  have hrTuned : policy.tuned table r = tunedAs "sumOf" := by
    simp only [policy, table, columns, r, tunedAs]
    decide +kernel
  rw [tune_eq_ok policy table hq, hqTuned, Except.ok.injEq] at hq'
  rw [tune_eq_ok policy table (List.cons_ne_nil _ _), hrTuned, Except.ok.injEq] at hr'
  subst hq' hr'
  have hform : (tunedAs "Sum_Of").canonical = tunedAs "sumof" := by
    simp only [tunedAs]
    decide +kernel
  refine ⟨hq, hr, ?_, hform ▸ hcanonical, ?_, hrespelled⟩
  · rw [tune_eq_ok policy table hq, hqTuned]
  · rw [tune_eq_ok policy table (List.cons_ne_nil _ _), hrTuned]

end QueryTuning
