import QueryTuning.Proofs.Query.RoundTrip
import QueryTuning.Proofs.Query.Tuned

/-!
# Tuned queries can be written and read back

A reader gives up on a text with more than 127 open brackets, and a number that is appended to a
call may make its text deeper. It does so by two brackets at most, however many numbers are
appended, because none of them stands inside of another one.

* `Substitutes.nest_substitute_le` : substitutes add two brackets at most.
* `Substitutes.floatFree_substitute` : they bring no floating-point number.
* `Query.nest_tuned_le`, `Query.nest_tuned_of_not_approximate` : the same for tuned queries.
* `tune_nest_le` : how deep a query may be so that it can still be read when it was tuned.
-/

namespace QueryTuning

/-! ## Renamed calls -/

namespace Expr

/-- Another name makes no difference to the brackets. -/
theorem nest_rename (f : String) (e : Expr) : (e.rename f).nest = e.nest := by
  cases e with
  | literal v => rfl
  | identifier x => rfl
  | call g es => rw [rename, nest_call, nest_call]

theorem floatFree_rename (f : String) (e : Expr) : (e.rename f).floatFree = e.floatFree := by
  cases e with
  | literal v => rfl
  | identifier x => rfl
  | call g es =>
    rw [Bool.eq_iff_iff, rename, floatFree_call, floatFree_call]

end Expr

/-! ## Substitutes -/

namespace Substitutes

/-- What is true of all operands behind substitution and of all whole numbers, is true of the
    operands that a call has then. -/
theorem forall_operands_substitute {P : Expr → Prop} (s : Substitutes) {es : List Expr}
    (hes : ∀ e ∈ es, P (s.substitute e).value) (hnumber : ∀ n : Int64, P (.literal (.int n)))
    (appended : Option Int64) :
    ∀ d ∈ es.map (fun e => (s.substitute e).value)
      ++ appended.toList.map (Expr.literal ∘ Literal.int), P d := by
  intro d hd
  rcases List.mem_append.mp hd with hd | hd
  · obtain ⟨e, he, rfl⟩ := List.mem_map.mp hd
    exact hes e he
  · obtain ⟨n, -, rfl⟩ := List.mem_map.mp hd
    exact hnumber n

/-- **Substitutes add two brackets at most.** The induction is on the expression; the number that
    is appended to a call has two brackets of its own, in the place of an operand. -/
theorem nest_substitute_le (s : Substitutes) (e : Expr) :
    (s.substitute e).value.nest ≤ e.nest + 2 := by
  induction e using Expr.inductionOn with
  | literal v => exact Nat.le_add_right _ 2
  | identifier x => exact Nat.le_add_right _ 2
  | call f es ih =>
    have hoperands : ∀ e ∈ es, e.nest ≤ Expr.greatest (es.map Expr.nest) := by
      intro e he
      exact Expr.greatest_le_iff.mp (Nat.le_refl _) _ (List.mem_map_of_mem he)
    rw [value_substitute_call, Expr.nest_call f es, Nat.add_assoc, Expr.nest_call_le_iff]
    refine s.forall_operands_substitute (fun e he => ?_) (fun n => ?_) _
    · have hgrown := ih e he
      have hbound := hoperands e he
      omega
    · have hnumber : (Expr.literal (.int n)).nest = 2 := rfl
      omega

/-- **Substitutes bring no floating-point number**: what they append is a whole number. -/
theorem floatFree_substitute (s : Substitutes) {e : Expr} (h : e.floatFree = true) :
    (s.substitute e).value.floatFree = true := by
  induction e using Expr.inductionOn with
  | literal v => exact h
  | identifier x => exact h
  | call f es ih =>
    have hes := Expr.floatFree_call.mp h
    rw [value_substitute_call, Expr.floatFree_call]
    exact s.forall_operands_substitute (fun e he => ih e he (hes e he)) (fun n => rfl) _

end Substitutes

/-! ## Roots -/

namespace Policy

variable (policy : Policy) (renamed : Option String) (e : Expr)

theorem nest_renamedTo : (renamedTo renamed e).nest = e.nest := by
  cases renamed with
  | none => rfl
  | some f => exact e.nest_rename f

theorem nest_tunedRoot_le : (policy.tunedRoot renamed e).nest ≤ e.nest + 2 := by
  rw [tunedRoot, approximated, ← nest_renamedTo renamed e]
  split
  · exact Substitutes.approximate.nest_substitute_le _
  · exact Nat.le_add_right _ 2

/-- Without approximate aggregations nothing is appended. -/
theorem nest_tunedRoot_of_not_approximate (h : policy.approximate = false) :
    (policy.tunedRoot renamed e).nest = e.nest := by
  rw [tunedRoot, approximated, if_neg (by simp [h]), nest_renamedTo]

theorem floatFree_tunedRoot {e : Expr} (h : e.floatFree = true) :
    (policy.tunedRoot renamed e).floatFree = true := by
  have hrenamed : (renamedTo renamed e).floatFree = true := by
    cases renamed with
    | none => exact h
    | some f => exact (e.floatFree_rename f).trans h
  rw [tunedRoot, approximated]
  split
  · exact Substitutes.approximate.floatFree_substitute hrenamed
  · exact hrenamed

end Policy

/-! ## Queries -/

namespace Query

variable {q : Query}

/-- **Tuning adds two brackets at most.** -/
theorem nest_tuned_le (policy : Policy) (table : Table) (q : Query) :
    (policy.tuned table q).nest ≤ q.nest + 2 := by
  obtain ⟨htwo, hselect, hhaving, horderBy⟩ := nest_le_iff.mp (Nat.le_refl q.nest)
  rw [nest_le_iff]
  refine ⟨by omega, ?_, ?_, ?_⟩
  · intro e' he'
    obtain ⟨e, he, rfl⟩ := List.mem_map.mp he'
    have hold := hselect e he
    have hgrown := policy.nest_tunedRoot_le (policy.countTarget table e) e
    omega
  · intro e' he'
    obtain ⟨e, he, rfl⟩ := Option.map_eq_some_iff.mp he'
    have hold := hhaving e he
    have hgrown := policy.nest_tunedRoot_le none e
    omega
  · intro key' hkey'
    obtain ⟨key, hkey, rfl⟩ := List.mem_map.mp hkey'
    have hold := horderBy key hkey
    have hgrown := policy.nest_tunedRoot_le none key.expr
    show 3 + (policy.tunedRoot none key.expr).nest ≤ _
    omega

/-- Without approximate aggregations tuning adds no bracket. -/
theorem nest_tuned_of_not_approximate {policy : Policy} (h : policy.approximate = false)
    (table : Table) (q : Query) : (policy.tuned table q).nest = q.nest := by
  have hroot (renamed : Option String) (e : Expr) :=
    policy.nest_tunedRoot_of_not_approximate renamed e h
  have hhaving : ∀ e : Option Expr, (e.map (policy.tunedRoot none)).toList.map (fun e => 1 + e.nest)
      = e.toList.map fun e => 1 + e.nest := by
    intro e
    cases e with
    | none => rfl
    | some e => simp [hroot]
  unfold nest Policy.tuned
  simp only [List.map_map, Function.comp_def, hroot, hhaving]

/-- A query without floating-point numbers is tuned to one without them. -/
theorem floatFree_tuned (policy : Policy) (table : Table) (h : q.floatFree = true) :
    (policy.tuned table q).floatFree = true := by
  have hroots := List.all_eq_true.mp h
  refine List.all_eq_true.mpr fun r hr => ?_
  rcases List.mem_append.mp hr with hr | hr
  · rcases List.mem_append.mp hr with hr | hr
    · obtain ⟨e, he, rfl⟩ := List.mem_map.mp hr
      exact policy.floatFree_tunedRoot _ (hroots e (by simp [roots, he]))
    · obtain ⟨e, he, rfl⟩ := Option.map_eq_some_iff.mp (Option.mem_toList.mp hr)
      exact policy.floatFree_tunedRoot _ (hroots e (by simp [roots, he]))
  · obtain ⟨key', hkey', rfl⟩ := List.mem_map.mp hr
    obtain ⟨key, hkey, rfl⟩ := List.mem_map.mp hkey'
    have hmem : key.expr ∈ q.roots := List.mem_append_right _ (List.mem_map_of_mem hkey)
    exact policy.floatFree_tunedRoot none (hroots key.expr hmem)

end Query

/-! ## The result -/

/-- A percentile with its number in the name and without any operand, inside of some calls. -/
def Expr.nestedPercentile : Nat → Expr
  | 0 => .call "PERCENTILE_95" []
  | n + 1 => .call "lower" [nestedPercentile n]

/-- **A tuned query can still be written and read back**, if there is room for two brackets.

    * Tuning adds two brackets to the text of a query at most, and none at all without approximate
      aggregations. So what is written for the tuned query is read back, if the query has no
      floating-point numbers and no more than 125 open brackets.
    * One bracket more is too much for some query: it can be read itself, but not when it was
      tuned. -/
theorem tune_nest_le :
    (∀ (policy : Policy) (table : Table) (q : Query), q.select ≠ [] →
      ∃ q', tune policy table q = .ok q' ∧ q'.nest ≤ q.nest + 2 ∧
        (policy.approximate = false → q'.nest = q.nest) ∧
        (q.floatFree = true → q.nest ≤ 125 →
          Json.Reader.ofText Query.reader q'.toJson.text = .ok q')) ∧
    (∃ (policy : Policy) (table : Table) (q q' : Query), q.floatFree = true ∧ q.nest = 126 ∧
      Json.Reader.ofText Query.reader q.toJson.text = .ok q ∧ tune policy table q = .ok q' ∧
      Json.Reader.ofText Query.reader q'.toJson.text = .error (.fault .malformed)) := by
  constructor
  · intro policy table q hq
    have hle := Query.nest_tuned_le policy table q
    refine ⟨policy.tuned table q, tune_eq_ok policy table hq, hle, ?_, ?_⟩
    · intro happrox
      exact Query.nest_tuned_of_not_approximate happrox table q
    · intro hfree hnest
      rw [Query.ofText_text (Query.floatFree_tuned policy table hfree), if_pos (by omega)]
  · -- The query sorts by a percentile inside of forty calls: three brackets for each of them, three
    -- for the percentile and three around it all. The number stands two brackets deeper.
    let policy : Policy := { approximate := true }
    let q : Query :=
      { select := [.identifier "city"], orderBy := [{ expr := .nestedPercentile 40 }] }
    have hq : q.select ≠ [] := List.cons_ne_nil _ _
    have hfree : q.floatFree = true := by decide +kernel
    have hnest : q.nest = 126 := by decide +kernel
    have htuned : (policy.tuned {} q).nest = 128 := by decide +kernel
    refine ⟨policy, {}, q, policy.tuned {} q, hfree, hnest, ?_, tune_eq_ok policy {} hq, ?_⟩
    · rw [Query.ofText_text hfree, if_pos (by omega)]
    · rw [Query.ofText_text (Query.floatFree_tuned policy {} hfree), if_neg (by omega)]

/-- Selected instead of sorted by, the same percentile can be read when it was tuned, with all
    brackets used up. -/
theorem tune_nest_le_sample :
    let policy : Policy := { approximate := true }
    let q : Query := { select := [.nestedPercentile 40] }
    q.select ≠ [] ∧ q.floatFree = true ∧ q.nest = 125 ∧
      ∃ q', tune policy {} q = .ok q' ∧ q'.nest = 127 ∧
        Json.Reader.ofText Query.reader q'.toJson.text = .ok q' := by
  intro policy q
  have hq : q.select ≠ [] := List.cons_ne_nil _ _
  have hfree : q.floatFree = true := by decide +kernel
  have hnest : q.nest = 125 := by decide +kernel
  obtain ⟨q', hq', -, -, hread⟩ := tune_nest_le.1 policy {} q hq
  have htuned : policy.tuned {} q = q' := by
    rw [tune_eq_ok policy {} hq] at hq'
    exact Except.ok.inj hq'
  have hnest' : q'.nest = 127 := by
    rw [← htuned]
    decide +kernel
  exact ⟨hq, hfree, hnest, q', hq', hnest', hread hfree (by omega)⟩

end QueryTuning
