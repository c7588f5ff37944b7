import Mathlib.Algebra.GroupWithZero.Nat
import QueryTuning.Proofs.Pipeline.Pass

/-!
# A run is an iteration of single passes

`Pipeline.run` stops early and keeps its own accounts. This module compares it with a plainer
description: tune once, again and again, each time from the query that the time before has left,
and add everything up.

* `Pipeline.successive` : the outcomes of a number of single passes, one after another.
* `Outcome.total` : what they come to as a run.
* `Pipeline.run_eq_total_successive` : for honest rules both descriptions agree, in success and in
  failure.
-/

namespace QueryTuning

/-! ## The plain description -/

/-- The outcomes of `n` single passes, each of which starts from the query of the one before. The
    first of them that fails makes all of them fail. -/
def Pipeline.successive (p : Pipeline) : Nat → Query → Except Error (List Outcome)
  | 0, _ => .ok []
  | n + 1, q => do
    let first ← p.runOnce q
    let rest ← p.successive n first.query
    return first :: rest

namespace Outcome

/-- The number of the first outcome in which nothing was changed, counted from one. If there is
    none, it is the number of all outcomes. -/
def firstQuiet (os : List Outcome) : Nat :=
  match os.findIdx? (·.applied == 0) with
  | some i => i + 1
  | none => os.length

/-- The query behind the last outcome, which is `q` if there is none. -/
def lastQuery (q : Query) (os : List Outcome) : Query :=
  (os.getLast?.map query).getD q

/-- What successive outcomes come to as a run from `q`. -/
def total (q : Query) (os : List Outcome) : Outcome where
  query := lastQuery q os
  passes := firstQuiet os
  applied := (os.map applied).sum
  trace := os.flatMap trace

/-- The number of the first quiet outcome moves up behind one that is not quiet. -/
theorem firstQuiet_cons {o : Outcome} (os : List Outcome) (h : o.applied ≠ 0) :
    firstQuiet (o :: os) = 1 + firstQuiet os := by
  simp only [firstQuiet, List.findIdx?_cons, beq_iff_eq, h, if_false]
  cases os.findIdx? (·.applied == 0) <;> simp <;> omega

/-- Only where there is no further outcome does the first one settle the query. -/
theorem lastQuery_cons (q : Query) (o : Outcome) (os : List Outcome) :
    lastQuery q (o :: os) = lastQuery o.query os := by
  cases os with
  | nil => rfl
  | cons o' os => simp [lastQuery, List.getLast?_cons]

/-- The total of a run whose first pass changes something. -/
theorem total_cons {o : Outcome} (q : Query) (os : List Outcome) (hpasses : o.passes = 1)
    (hne : o.applied ≠ 0) : total q (o :: os) = o.andThen (total o.query os) := by
  simp [total, andThen, lastQuery_cons, firstQuiet_cons os hne, hpasses]

/-- The total of passes that change nothing is the first of them. -/
theorem total_replicate (q : Query) (n : Nat) :
    total q (List.replicate (n + 1) { query := q, passes := 1 }) = { query := q, passes := 1 } := by
  have hlast : lastQuery q (List.replicate (n + 1) { query := q, passes := 1 }) = q := by
    simp [lastQuery, List.getLast?_replicate]
  rw [total, hlast]
  simp [firstQuiet, List.replicate_succ, List.findIdx?_cons]

end Outcome

namespace Pipeline

/-! ## One pass at a time -/

/-- Where every rule is quiet, every further pass does nothing but count. -/
theorem successive_of_quiet (p : Pipeline) {q : Query} (hq : q.select ≠ [])
    (h : ∀ rule ∈ p.rules, rule.Quiet q) (n : Nat) :
    p.successive n q = .ok (List.replicate n { query := q, passes := 1 }) := by
  induction n with
  | zero => rfl
  | succ n ih =>
    have hpass : p.runOnce q = .ok { query := q, passes := 1 } := by
      rw [p.runOnce_eq_pass hq, p.pass_of_quiet h]
    simp [successive, hpass, ih, List.replicate_succ, bind, Except.bind, pure, Except.pure]

/-- A pass that changed nothing, made by honest rules, can be told from its query alone. -/
theorem eq_of_applied_eq_zero {p : Pipeline} (hhonest : ∀ rule ∈ p.rules, rule.Honest)
    {q : Query} {o : Outcome} (h : p.pass q = .ok o) (hzero : o.applied = 0) :
    (∀ rule ∈ p.rules, rule.Quiet q) ∧ o = { query := q, passes := 1 } := by
  obtain ⟨all, hall, rfl⟩ := pass_eq_ok h
  have hquiet := quiet_of_applied_eq_zero hhonest hall hzero
  refine ⟨hquiet, ?_⟩
  rw [p.pass_of_quiet hquiet] at h
  exact (Except.ok.inj h).symm

/-- **Passes are iterated single passes.** The induction is on the bound. A first pass that changes
    nothing ends the run, and all that the plain description adds behind it is quiet. -/
theorem passes_eq_total_successive {p : Pipeline}
    (hrules : ∀ rule ∈ p.rules, rule.Honest ∧ rule.KeepsSelect) (n : Nat) {q : Query}
    (hq : q.select ≠ []) :
    p.passes n q = (p.successive n q).map (Outcome.total q) := by
  induction n generalizing q with
  | zero => rfl
  | succ n ih =>
    have honce : p.runOnce q = p.pass q := p.runOnce_eq_pass hq
    cases hpass : p.pass q with
    | error e => simp [passes, successive, honce, hpass, bind, Except.bind, Except.map]
    | ok first =>
      by_cases hzero : first.applied = 0
      · -- The run stops here, and all that comes behind this pass repeats it.
        have hhonest : ∀ rule ∈ p.rules, rule.Honest := by
          intro r hr
          exact (hrules r hr).1
        obtain ⟨hquiet, hfirst⟩ := eq_of_applied_eq_zero hhonest hpass hzero
        rw [passes_succ_of_applied_eq_zero hpass hzero, p.successive_of_quiet hq hquiet, hfirst]
        simp [Except.map, Outcome.total_replicate]
      · -- Both go on from the query behind this pass, which has to select something again.
        obtain ⟨all, hall, hfirst⟩ := pass_eq_ok hpass
        have hkeep : ∀ rule ∈ p.rules, ∀ q a, q.select ≠ [] → rule.apply q = .ok a →
            a.value.select ≠ [] := by
          intro r hr q a hq ha
          exact (hrules r hr).2 q a ha hq
        have hall' : all.query.select ≠ [] := applyAll_inv (·.select ≠ []) hkeep hall hq
        have hsel : first.query.select ≠ [] := by
          rw [hfirst]
          exact hall'
        have hone : first.passes = 1 := by rw [hfirst]
        rw [passes_succ_of_applied_ne_zero hpass hzero, ih hsel]
        simp only [successive, honce, hpass, bind, Except.bind]
        cases p.successive n first.query with
        | error e => rfl
        | ok os => simp [Except.map, pure, Except.pure, Outcome.total_cons q os hone hzero]

/-! ## Accounts of a run -/

/-- No rule counts more than once in a pass. -/
theorem applied_le_passes_mul {p : Pipeline} {n : Nat} {q : Query} {o : Outcome}
    (h : p.passes n q = .ok o) : o.applied ≤ o.passes * p.rules.length := by
  induction n generalizing q o with
  | zero => cases h; simp
  | succ n ih =>
    obtain ⟨first, hpass, h⟩ := exists_of_bind_eq_ok h
    obtain ⟨all, hall, hfirst⟩ := pass_eq_ok hpass
    have hall' : all.applied ≤ p.rules.length := applied_le_length hall
    have hle : first.applied ≤ p.rules.length := by
      rw [hfirst]
      exact hall'
    have hone : first.passes = 1 := by rw [hfirst]
    by_cases hzero : first.applied = 0
    · -- This pass was the last one.
      simp only [hzero, if_true] at h
      cases h
      omega
    · simp only [hzero, if_false] at h
      obtain ⟨rest, hrest, h⟩ := exists_of_bind_eq_ok h
      cases h
      have hrestLe : rest.applied ≤ rest.passes * p.rules.length := ih hrest
      simp only [Outcome.andThen, hone, Nat.add_mul]
      omega

/-- A run that did not use up its passes has come to a query on which every rule is quiet. -/
theorem quiet_of_passes_lt {p : Pipeline} (hhonest : ∀ rule ∈ p.rules, rule.Honest) {n : Nat}
    {q : Query} {o : Outcome} (h : p.passes n q = .ok o) (hlt : o.passes < n) :
    ∀ rule ∈ p.rules, rule.Quiet o.query := by
  induction n generalizing q o with
  | zero => omega
  | succ n ih =>
    obtain ⟨first, hpass, h⟩ := exists_of_bind_eq_ok h
    by_cases hzero : first.applied = 0
    · -- This pass was the last one, and its rules were quiet on the query that it left.
      simp only [hzero, if_true] at h
      cases h
      obtain ⟨hquiet, hfirst⟩ := eq_of_applied_eq_zero hhonest hpass hzero
      rw [hfirst]
      exact hquiet
    · simp only [hzero, if_false] at h
      obtain ⟨rest, hrest, h⟩ := exists_of_bind_eq_ok h
      cases h
      obtain ⟨all, -, hfirst⟩ := pass_eq_ok hpass
      have hone : first.passes = 1 := by rw [hfirst]
      -- The passes behind this one did not use up their bound either.
      have hrestLt : rest.passes < n := by
        simp only [Outcome.andThen, hone] at hlt
        omega
      have hrestQuiet : ∀ rule ∈ p.rules, rule.Quiet rest.query := ih hrest hrestLt
      exact hrestQuiet

/-- With room for one pass only, the run is that pass, whatever the rules are. -/
theorem passes_one (p : Pipeline) (q : Query) : p.passes 1 q = p.pass q := by
  cases hpass : p.pass q with
  | error e => simp [passes, hpass, bind, Except.bind]
  | ok first =>
    by_cases hzero : first.applied = 0
    · exact passes_succ_of_applied_eq_zero hpass hzero
    · rw [passes_succ_of_applied_ne_zero hpass hzero]
      simp [passes, Except.map, Outcome.andThen]

/-! ## The comparison -/

/-- **A run is an iteration of single passes.**

    * A query that selects nothing is refused, whatever the rules are.
    * Otherwise, for honest rules that keep the select list, the run fails exactly if one of the
      successive single passes fails, with the error of the first one that does, and succeeds with
      their total. No rule counts more than once in a pass, and a run that stopped early has come
      to a query on which every rule is quiet.
    * A run of one pass is a single pass, for any rules at all. -/
theorem run_eq_total_successive (p : Pipeline) (q : Query) :
    (q.select = [] → ∀ rules, { p with rules }.run q = .error .emptySelect) ∧
    (q.select ≠ [] → (∀ rule ∈ p.rules, rule.Honest ∧ rule.KeepsSelect) →
      p.run q = (p.successive p.maxPasses q).map (Outcome.total q) ∧
      ∀ o, p.run q = .ok o →
        o.applied ≤ o.passes * p.rules.length ∧
        (o.passes < p.maxPasses → ∀ rule ∈ p.rules, rule.Quiet o.query)) ∧
    (p.maxPasses = 1 → p.run q = p.runOnce q) := by
  refine ⟨fun hq rules => run_of_select_eq_nil _ hq, fun hq hrules => ?_, fun hone => ?_⟩
  · rw [p.run_eq_passes hq]
    refine ⟨passes_eq_total_successive hrules p.maxPasses hq, fun o ho => ⟨?_, fun hlt => ?_⟩⟩
    · exact applied_le_passes_mul ho
    · exact quiet_of_passes_lt (fun r hr => (hrules r hr).1) ho hlt
  · simp only [run, runOnce, hone, passes_one]

/-- Takes one off the limit until it is zero: a rule that needs a pass for every step. -/
def countdown : Rule where
  name := "Countdown"
  apply q := .ok <|
    match q.limit with
    | some n => if n = 0 then .same q else .into { q with limit := some (n - 1) }
    | none => .same q

theorem countdown_honest : countdown.Honest := by
  intro q a h hsame
  simp only [countdown, Except.ok.injEq] at h
  subst h
  cases hl : q.limit with
  | none => rfl
  | some n =>
    by_cases hn : n = 0
    · simp [hn]
    · simp [hl, hn] at hsame

theorem countdown_keepsSelect : countdown.KeepsSelect := by
  intro q a h hq
  simp only [countdown, Except.ok.injEq] at h
  subst h
  cases q.limit with
  | none => exact hq
  | some n => by_cases hn : n = 0 <;> simpa [hn] using hq

/-- Two passes count down from two and a third one finds nothing to do. -/
theorem run_countdown :
    let p : Pipeline := { rules := [countdown], maxPasses := 5 }
    let q : Query := { select := [.identifier "x"], limit := some 2 }
    q.select ≠ [] ∧ (∀ rule ∈ p.rules, rule.Honest ∧ rule.KeepsSelect) ∧
    p.run q = .ok { query := { q with limit := some 0 }, passes := 3, applied := 2 } ∧
    ∀ rule ∈ p.rules, rule.Quiet { q with limit := some 0 } := by
  intro p q
  have hq : q.select ≠ [] := List.cons_ne_nil _ _
  have hrules : ∀ rule ∈ p.rules, rule.Honest ∧ rule.KeepsSelect := by
    intro rule hrule
    rw [List.mem_singleton.mp hrule]
    exact ⟨countdown_honest, countdown_keepsSelect⟩
  have h := (run_eq_total_successive p q).2.1 hq hrules
  have hrun : p.run q
      = .ok { query := { q with limit := some 0 }, passes := 3, applied := 2 } := by
    rw [h.1]
    rfl
  exact ⟨hq, hrules, hrun, (h.2 _ hrun).2 (by decide)⟩

end Pipeline

end QueryTuning
