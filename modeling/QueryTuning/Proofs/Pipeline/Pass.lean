import QueryTuning.Pipeline.Basic

/-!
# What a pass does

A pass applies rules that the pipeline knows nothing about. This module says what follows for the
pass from what is known about its rules.

* `Rule.Quiet` : the rule leaves a query as it is, and says so.
* `Rule.Honest` : what the rule calls unchanged is unchanged.
* `Rule.KeepsSelect` : the rule leaves something to select.
* `Pipeline.step_cases` : everything that one application of a rule can come to.
* `Pipeline.applyAll_inv` : what all rules keep is kept by a pass.
* `Pipeline.quiet_of_applied_eq_zero` : a pass that changed nothing had quiet rules only.
-/

namespace QueryTuning

/-! ## Rules -/

namespace Rule

/-- A rule is **quiet** on a query that it returns as it is and calls unchanged. -/
def Quiet (rule : Rule) (q : Query) : Prop :=
  rule.apply q = .ok (.same q)

/-- A rule is **honest** if every query that it calls unchanged is the one that it was given. -/
def Honest (rule : Rule) : Prop :=
  ∀ q a, rule.apply q = .ok a → a.changed = false → a.value = q

/-- A rule **keeps the select list** if it never makes a query that selects nothing of one that
    selects something. -/
def KeepsSelect (rule : Rule) : Prop :=
  ∀ q a, rule.apply q = .ok a → q.select ≠ [] → a.value.select ≠ []

/-- An honest rule is quiet wherever it reports no change. -/
theorem Honest.quiet {rule : Rule} (h : rule.Honest) {q : Query} {a : Adjusted Query}
    (happly : rule.apply q = .ok a) (hsame : a.changed = false) : rule.Quiet q := by
  have hvalue : a.value = q := h q a happly hsame
  rw [Quiet, happly]
  cases a
  simp_all [Adjusted.same]

end Rule

namespace Pipeline

/-! ## A single rule -/

/-- One application of a rule either changes nothing that is counted, or it counts once. -/
theorem step_cases {p : Pipeline} {rule : Rule} {q : Query} {o : Outcome}
    (h : p.step rule q = .ok o) :
    ∃ a, rule.apply q = .ok a ∧
      ((a.changed = false ∧ o = { query := a.value }) ∨
        (a.changed = true ∧ ∃ trace, o = { query := a.value, applied := 1, trace })) := by
  obtain ⟨a, happly, hrest⟩ := exists_of_bind_eq_ok h
  refine ⟨a, happly, ?_⟩
  -- What the rule reports decides whether the application is counted.
  cases hc : a.changed with
  | false =>
    simp only [hc, Bool.false_eq_true, if_false] at hrest
    exact Or.inl ⟨rfl, (Except.ok.inj hrest).symm⟩
  | true =>
    simp only [hc, if_true] at hrest
    exact Or.inr ⟨rfl, _, (Except.ok.inj hrest).symm⟩

/-- A quiet rule leaves no mark on the outcome. -/
theorem step_of_quiet (p : Pipeline) {rule : Rule} {q : Query} (h : rule.Quiet q) :
    p.step rule q = .ok { query := q } := by
  rw [Rule.Quiet] at h
  simp [step, h, bind, Except.bind, pure, Except.pure]

/-! ## Several rules -/

/-- A run over `rule :: rules` that succeeds has succeeded in both parts. -/
theorem applyAll_cons_eq_ok {p : Pipeline} {rule : Rule} {rules : List Rule} {q : Query}
    {o : Outcome} (h : p.applyAll (rule :: rules) q = .ok o) :
    ∃ first rest, p.step rule q = .ok first ∧ p.applyAll rules first.query = .ok rest ∧
      o = first.andThen rest := by
  obtain ⟨first, hfirst, h⟩ := exists_of_bind_eq_ok h
  obtain ⟨rest, hrest, h⟩ := exists_of_bind_eq_ok h
  exact ⟨first, rest, hfirst, hrest, (Except.ok.inj h).symm⟩

/-- Quiet rules leave no mark on the outcome, however many there are. -/
theorem applyAll_of_quiet (p : Pipeline) {rules : List Rule} {q : Query}
    (h : ∀ rule ∈ rules, rule.Quiet q) : p.applyAll rules q = .ok { query := q } := by
  induction rules with
  | nil => rfl
  | cons rule rules ih =>
    have hhead := p.step_of_quiet (h rule List.mem_cons_self)
    have htail := ih fun r hr => h r (List.mem_cons_of_mem _ hr)
    simp [applyAll, hhead, htail, bind, Except.bind, pure, Except.pure, Outcome.andThen]

/-- Every rule counts at most once in a pass. -/
theorem applied_le_length {p : Pipeline} {rules : List Rule} {q : Query} {o : Outcome}
    (h : p.applyAll rules q = .ok o) : o.applied ≤ rules.length := by
  induction rules generalizing q o with
  | nil => cases h; exact Nat.le_refl 0
  | cons rule rules ih =>
    obtain ⟨first, rest, hstep, hrest, rfl⟩ := applyAll_cons_eq_ok h
    have hle : rest.applied ≤ rules.length := ih hrest
    -- The first rule counts either nothing or one.
    obtain ⟨a, -, ⟨-, rfl⟩ | ⟨-, trace, rfl⟩⟩ := step_cases hstep
    · simp [Outcome.andThen]; omega
    · simp [Outcome.andThen]; omega

/-- If honest rules changed nothing, each of them was quiet, on the very query that the pass
    started from. -/
theorem quiet_of_applied_eq_zero {p : Pipeline} {rules : List Rule} {q : Query} {o : Outcome}
    (hhonest : ∀ rule ∈ rules, rule.Honest) (h : p.applyAll rules q = .ok o)
    (hzero : o.applied = 0) : ∀ rule ∈ rules, rule.Quiet q := by
  induction rules generalizing q o with
  | nil => simp
  | cons rule rules ih =>
    obtain ⟨first, rest, hstep, hrest, rfl⟩ := applyAll_cons_eq_ok h
    obtain ⟨a, happly, ⟨hc, rfl⟩ | ⟨-, trace, rfl⟩⟩ := step_cases hstep
    · -- The first rule is honest, so the others started from the same query.
      have hhead : rule.Honest := hhonest rule List.mem_cons_self
      have hvalue : a.value = q := hhead q a happly hc
      have hrestZero : rest.applied = 0 := by simpa [Outcome.andThen] using hzero
      have htail := ih (fun r hr => hhonest r (List.mem_cons_of_mem _ hr)) hrest hrestZero
      intro r hr
      rcases List.mem_cons.mp hr with rfl | hr
      · exact hhead.quiet happly hc
      · exact hvalue ▸ htail r hr
    · -- A rule that counted cannot be part of a total of zero.
      simp [Outcome.andThen] at hzero

/-- **Invariant of a pass**: what every rule keeps is kept by all of them together. -/
theorem applyAll_inv (P : Query → Prop) {p : Pipeline} {rules : List Rule} {q : Query}
    {o : Outcome}
    (hstep : ∀ rule ∈ rules, ∀ q a, P q → rule.apply q = .ok a → P a.value)
    (h : p.applyAll rules q = .ok o) (hq : P q) : P o.query := by
  induction rules generalizing q o with
  | nil => cases h; exact hq
  | cons rule rules ih =>
    obtain ⟨first, rest, hfirst, hrest, rfl⟩ := applyAll_cons_eq_ok h
    obtain ⟨a, happly, hcase⟩ := step_cases hfirst
    have hquery : first.query = a.value := by
      obtain ⟨-, rfl⟩ | ⟨-, trace, rfl⟩ := hcase <;> rfl
    -- The other rules start from the query behind the first one.
    have hP : P first.query := hquery ▸ hstep rule List.mem_cons_self q a hq happly
    have hrestP : P rest.query :=
      ih (fun r hr => hstep r (List.mem_cons_of_mem _ hr)) hrest hP
    exact hrestP

/-! ## A whole pass -/

/-- A pass that succeeds is a run over all rules, counted as one pass. -/
theorem pass_eq_ok {p : Pipeline} {q : Query} {o : Outcome} (h : p.pass q = .ok o) :
    ∃ all, p.applyAll p.rules q = .ok all ∧ o = { all with passes := 1 } := by
  obtain ⟨all, hall, h⟩ := exists_of_bind_eq_ok h
  exact ⟨all, hall, (Except.ok.inj h).symm⟩

/-- A pass of quiet rules does nothing but count. -/
theorem pass_of_quiet (p : Pipeline) {q : Query} (h : ∀ rule ∈ p.rules, rule.Quiet q) :
    p.pass q = .ok { query := q, passes := 1 } := by
  simp [pass, p.applyAll_of_quiet h, bind, Except.bind, pure, Except.pure]

/-- On a query that selects something, tuning once is one pass. -/
theorem runOnce_eq_pass (p : Pipeline) {q : Query} (h : q.select ≠ []) :
    p.runOnce q = p.pass q := by
  simp [runOnce, Query.validate, Error.ensure, h, bind, Except.bind]

/-- On a query that selects something, tuning is a bounded number of passes. -/
theorem run_eq_passes (p : Pipeline) {q : Query} (h : q.select ≠ []) :
    p.run q = p.passes p.maxPasses q := by
  simp [run, Query.validate, Error.ensure, h, bind, Except.bind]

/-- A query that selects nothing is refused whatever the rules are. -/
theorem run_of_select_eq_nil (p : Pipeline) {q : Query} (h : q.select = []) :
    p.run q = .error .emptySelect := by
  simp [run, Query.validate, Error.ensure, h, bind, Except.bind]

theorem runOnce_of_select_eq_nil (p : Pipeline) {q : Query} (h : q.select = []) :
    p.runOnce q = .error .emptySelect := by
  simp [runOnce, Query.validate, Error.ensure, h, bind, Except.bind]

/-- If the first pass changes nothing, it is the only one. -/
theorem passes_succ_of_applied_eq_zero {p : Pipeline} {n : Nat} {q : Query} {first : Outcome}
    (h : p.pass q = .ok first) (hzero : first.applied = 0) :
    p.passes (n + 1) q = .ok first := by
  simp [passes, h, hzero, bind, Except.bind, pure, Except.pure]

/-- If the first pass changes something, the run goes on from what it made. -/
theorem passes_succ_of_applied_ne_zero {p : Pipeline} {n : Nat} {q : Query} {first : Outcome}
    (h : p.pass q = .ok first) (hne : first.applied ≠ 0) :
    p.passes (n + 1) q = (p.passes n first.query).map first.andThen := by
  simp only [passes, h, bind, Except.bind, hne, if_false]
  cases p.passes n first.query <;> rfl

end Pipeline

end QueryTuning
