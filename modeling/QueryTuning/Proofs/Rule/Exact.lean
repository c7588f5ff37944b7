import QueryTuning.Proofs.Rule.Choice

/-!
# Flags that are exact

A pipeline goes by what its rules report. A change that is none keeps it busy until its passes are
used up, and a change that is kept quiet stops it too early. Built-in rules report neither.

* `Adjusted.Exact` : called changed exactly if it differs from what was there before.
* `Query.changed_chooseCounts_eq_false_iff`, `Query.changed_substitute_eq_false_iff`,
  `Query.changed_capLimit_eq_false_iff` : where a rule calls nothing changed.
* `Query.exact_chooseCounts`, `Substitutes.exact_substitute`, `Query.exact_capLimit` : there it
  changes nothing indeed, and elsewhere it does.
* `BuiltinRule.exact_adjust`, `BuiltinRule.apply_exact` : the flag of a built-in rule.
-/

namespace QueryTuning

/-- What became of something is **exact** if it is called changed exactly where it differs from what
    was there before. -/
def Adjusted.Exact {α : Type} (a : Adjusted α) (before : α) : Prop :=
  a.changed = true ↔ a.value ≠ before

namespace Adjusted

variable {α : Type} {a : Adjusted α} {before : α}

/-- It is the same to tell exactly where nothing was changed. -/
theorem exact_iff : a.Exact before ↔ (a.changed = false ↔ a.value = before) := by
  unfold Exact
  by_cases hvalue : a.value = before
  · simp [hvalue]
  · simp [hvalue]

theorem Exact.value_eq (h : a.Exact before) (hc : a.changed = false) : a.value = before :=
  (exact_iff.mp h).mp hc

theorem Exact.changed_eq_false (h : a.Exact before) (hvalue : a.value = before) :
    a.changed = false :=
  (exact_iff.mp h).mpr hvalue

theorem Exact.eq_same (h : a.Exact before) (hc : a.changed = false) : a = .same before := by
  have hvalue : a.value = before := h.value_eq hc
  -- A flag and a value are all there is.
  cases a
  simp_all [same]

end Adjusted

theorem map_eq_self_iff {α : Type} {f : α → α} {as : List α} :
    as.map f = as ↔ ∀ a ∈ as, f a = a := by
  have h : as.map f = as.map id ↔ ∀ a ∈ as, f a = id a := List.map_inj_left
  rwa [List.map_id] at h

/-! ## Distinct counts -/

/-- A final choice gives every distinct count that it renames another name than it had. -/
theorem Expr.value_chooseCount_eq_self_iff {choose : String → Option String}
    (hfinal : FinalChoice choose) (e : Expr) :
    (e.chooseCount choose).value = e ↔ e.countedColumn?.bind choose = none := by
  constructor
  · intro h
    -- Nothing is chosen for the renamed expression, and that is the expression itself.
    have hvalue : (e.chooseCount choose).value.countedColumn?.bind choose = none :=
      bind_countedColumn?_chooseCount hfinal id
    rwa [h] at hvalue
  · intro h
    rw [chooseCount_of_none h, Adjusted.value_same]

namespace Query

theorem changed_chooseCounts_eq_false_iff (choose : String → Option String) (q : Query) :
    (q.chooseCounts choose).changed = false
      ↔ ∀ e ∈ q.select, e.countedColumn?.bind choose = none := by
  simp [chooseCounts, Expr.changed_chooseCount]

/-- **Counts that are chosen are flagged exactly**, as long as the choice is final. -/
theorem exact_chooseCounts {choose : String → Option String} (hfinal : Expr.FinalChoice choose)
    (q : Query) : (q.chooseCounts choose).Exact q := by
  -- Only the select list is replaced, so queries differ where select lists do.
  have hselect : (q.chooseCounts choose).value = q
      ↔ q.select.map (fun e => (e.chooseCount choose).value) = q.select := by
    rw [value_chooseCounts]
    exact ⟨fun h => congrArg select h, fun h => by rw [h]⟩
  rw [Adjusted.exact_iff, changed_chooseCounts_eq_false_iff, hselect, map_eq_self_iff]
  simp only [Expr.value_chooseCount_eq_self_iff hfinal]

/-! ## Limits -/

/-- A limit stays as it is exactly if there is one and it does not exceed the ceiling. -/
theorem changed_capLimit_eq_false_iff (ceiling standard : UInt64) (q : Query) :
    (q.capLimit ceiling standard).changed = false ↔ ∃ n, q.limit = some n ∧ n ≤ ceiling := by
  rw [← Bool.not_eq_true, changed_capLimit]
  cases q.limit with
  | none => simp
  | some n =>
    by_cases hn : n ≤ ceiling
    · simp [cappedLimit, Std.min_eq_if, hn]
    · have hne : n ≠ ceiling := fun heq => hn (heq ▸ UInt64.le_refl n)
      simp [cappedLimit, Std.min_eq_if, hn, hne]

/-- **A limit is flagged exactly**: the flag compares limits, and nothing else of a query is
    replaced. -/
theorem exact_capLimit (ceiling standard : UInt64) (q : Query) :
    (q.capLimit ceiling standard).Exact q := by
  unfold Adjusted.Exact
  rw [changed_capLimit, value_capLimit]
  apply not_congr
  constructor
  · intro h
    rw [← h]
  · intro h
    exact (congrArg limit h).symm

end Query

/-! ## Substitutes -/

namespace Substitutes

/-- A call becomes itself exactly if it keeps its name, with nothing behind its operands, and all
    operands become themselves. -/
theorem value_substitute_call_eq_self_iff (s : Substitutes) (f : String) (es : List Expr) :
    (s.substitute (.call f es)).value = .call f es
      ↔ (s.lookup f = none ∨ s.lookup f = some { target := f }) ∧
        ∀ e ∈ es, (s.substitute e).value = e := by
  rw [value_substitute_call]
  constructor
  · intro h
    obtain ⟨hname, hoperands⟩ := Expr.call.inj h
    -- There are as many operands as before, so none of them was appended.
    have hnone : (s.lookup f).bind Substitution.appended = none := by
      have hlength := congrArg List.length hoperands
      cases happended : (s.lookup f).bind Substitution.appended with
      | none => rfl
      | some n => simp [happended] at hlength
    constructor
    · cases hnew : s.lookup f with
      | none => exact .inl rfl
      | some new =>
        right
        obtain ⟨target, appended⟩ := new
        simp only [hnew, Option.elim_some, Option.bind_some] at hname hnone
        rw [hname, hnone]
    · apply map_eq_self_iff.mp
      simpa [hnone] using hoperands
  · rintro ⟨hname, hoperands⟩
    rw [map_eq_self_iff.mpr hoperands]
    rcases hname with hname | hname <;> simp [hname]

/-- **Substitutes are flagged exactly**, whatever they are. The induction is on the expression; what
    is said of a call by its flag and by its value differs in the operands only. -/
theorem exact_substitute (s : Substitutes) (e : Expr) : (s.substitute e).Exact e := by
  induction e using Expr.inductionOn with
  | literal v => simp [Adjusted.exact_iff]
  | identifier x => simp [Adjusted.exact_iff]
  | call f es ih =>
    rw [Adjusted.exact_iff, changed_substitute_call_eq_false_iff,
      value_substitute_call_eq_self_iff]
    apply and_congr_right
    intro _
    constructor
    · intro h e he
      exact (ih e he).value_eq (h e he)
    · intro h e he
      exact (ih e he).changed_eq_false (h e he)

end Substitutes

namespace Query

theorem changed_substitute_eq_false_iff (s : Substitutes) (q : Query) :
    (q.substitute s).changed = false ↔ ∀ e ∈ q.roots, (s.substitute e).changed = false := by
  simp [substitute]

/-- A function leaves a query alone exactly if it leaves every expression of it alone. -/
theorem mapRoots_eq_self_iff {f : Expr → Expr} {q : Query} :
    q.mapRoots f = q ↔ ∀ e ∈ q.roots, f e = e := by
  constructor
  · intro h
    have hroots : q.roots.map f = q.roots := by rw [← roots_mapRoots, h]
    exact map_eq_self_iff.mp hroots
  · intro h
    simp only [roots, List.mem_append, Option.mem_toList, List.mem_map] at h
    have hselect : q.select.map f = q.select :=
      map_eq_self_iff.mpr fun e he => h e (.inl (.inl he))
    have hhaving : q.having.map f = q.having := by
      cases hh : q.having with
      | none => rfl
      | some e => exact congrArg some (h e (.inl (.inr hh)))
    have horderBy : (q.orderBy.map fun key => { key with expr := f key.expr }) = q.orderBy :=
      map_eq_self_iff.mpr fun key hkey => by rw [h key.expr (.inr ⟨key, hkey, rfl⟩)]
    rw [mapRoots, hselect, hhaving, horderBy]

/-- The flag of a query is exact because those of its expressions are. -/
theorem exact_substitute (s : Substitutes) (q : Query) : (q.substitute s).Exact q := by
  rw [Adjusted.exact_iff, changed_substitute_eq_false_iff]
  show (∀ e ∈ q.roots, (s.substitute e).changed = false)
    ↔ (q.mapRoots fun e => (s.substitute e).value) = q
  rw [mapRoots_eq_self_iff]
  constructor
  · intro h e he
    exact (s.exact_substitute e).value_eq (h e he)
  · intro h e he
    exact (s.exact_substitute e).changed_eq_false (h e he)

end Query

/-! ## Built-in rules -/

namespace BuiltinRule

/-- **Built-in rules flag their changes exactly.** -/
theorem exact_adjust (r : BuiltinRule) (q : Query) : (r.adjust q).Exact q := by
  rcases r.kinds with ⟨ceiling, standard, rfl⟩ | hcount | ⟨s, rfl⟩
  · exact Query.exact_capLimit ceiling standard q
  · rw [adjust_eq_chooseCounts hcount]
    exact Query.exact_chooseCounts r.finalChoice q
  · exact Query.exact_substitute s q

/-- **Built-in rules are honest**: what they call unchanged, they return as it was. -/
theorem adjust_eq_same {r : BuiltinRule} {q : Query} (h : (r.adjust q).changed = false) :
    r.adjust q = .same q :=
  (r.exact_adjust q).eq_same h

/-- **Flags are exact.** A built-in rule, whatever its parameters are, refuses no query and calls a
    query changed exactly if it made another query of it. The same holds where a limit is capped,
    distinct counts are renamed or approximate aggregations are put in place without a rule. -/
theorem apply_exact :
    (∀ (r : BuiltinRule) (q : Query), ∃ a, r.toRule.apply q = .ok a ∧ a.Exact q) ∧
    (∀ (ceiling : UInt64) (q : Query), (q.capLimit ceiling).Exact q) ∧
    (∀ (columns : Std.ExtTreeSet String) (q : Query), (q.countBySegment columns).Exact q) ∧
    (∀ (schema : Schema) (q : Query), (q.countMultiValued schema).Exact q) ∧
    ∀ q : Query, q.approximate.Exact q := by
  refine ⟨fun r q => ?_, fun ceiling q => ?_, fun columns q => ?_, fun schema q => ?_,
    fun q => ?_⟩
  · exact ⟨r.adjust q, rfl, r.exact_adjust q⟩
  · exact Query.exact_capLimit ceiling standardLimit q
  · exact exact_adjust (.countBySegment columns) q
  · exact exact_adjust (.countMultiValued schema) q
  · exact Query.exact_substitute .approximate q

end BuiltinRule

end QueryTuning
