import Mathlib.Data.List.Chain
import QueryTuning.Pipeline.Trace
import QueryTuning.Proofs.Pipeline.Iteration

/-!
# What a trace tells

A trace is kept beside a run and must not disturb it, and it has to tell all that was changed, in
order and without gaps. It is compared here with a plain log of the run: which rule was applied to
which query, and what came of it.

* `Pipeline.Applies` : the log of some rules that are applied one after another.
* `Pipeline.applies_of_run` : the log of a run, and how its outcome is read off it.
* `Pipeline.Applies.linked` : honest rules leave no gap between two changes.
* `Outcome.Faithful` : what the trace of an outcome and the report on it tell.
* `Pipeline.run_faithful` : traces are faithful, and nothing else depends on them.
-/

namespace QueryTuning

/-! ## Logs -/

/-- One application of a rule. -/
structure Application where
  /-- The rule. -/
  rule : Rule
  /-- The query that it was applied to. -/
  before : Query
  /-- What it made of the query. -/
  result : Adjusted Query

namespace Application

/-- The query behind an application. -/
def after (a : Application) : Query := a.result.value

/-- What a trace should say about an application. -/
def entry (a : Application) : TraceEntry where
  rule := a.rule.name
  before := a.before.explain
  after := a.after.explain
  changed := a.result.changed

/-- The applications that changed something. -/
def changes (as : List Application) : List Application := as.filter (·.result.changed)

theorem changes_append (as bs : List Application) :
    changes (as ++ bs) = changes as ++ changes bs := List.filter_append ..

theorem changes_cons_of_changed {a : Application} (h : a.result.changed = true)
    (as : List Application) : changes (a :: as) = a :: changes as := by
  simp [changes, h]

theorem changes_cons_of_unchanged {a : Application} (h : a.result.changed = false)
    (as : List Application) : changes (a :: as) = changes as := by
  simp [changes, h]

/-- **Applications are linked** from one query to another if each of them starts where the one
    before has ended. -/
def Linked : Query → List Application → Query → Prop
  | q, [], q' => q = q'
  | q, a :: as, q' => a.before = q ∧ Linked a.after as q'

end Application

namespace Pipeline

/-- **The log** of rules that are applied one after another, each to the query that the one before
    has made. -/
inductive Applies : List Rule → Query → List Application → Query → Prop where
  /-- Without a rule nothing happens. -/
  | nil (q : Query) : Applies [] q [] q
  /-- The first rule accepts the query, and the others go on from what it made. -/
  | cons {rule : Rule} {rules : List Rule} {q q' : Query} {result : Adjusted Query}
      {as : List Application} (happly : rule.apply q = .ok result)
      (hrest : Applies rules result.value as q') :
      Applies (rule :: rules) q ({ rule, before := q, result } :: as) q'

variable {rules : List Rule} {q q' : Query} {as : List Application}

theorem Applies.append {rules' : List Rule} {q'' : Query} {bs : List Application}
    (h : Applies rules q as q') (h' : Applies rules' q' bs q'') :
    Applies (rules ++ rules') q (as ++ bs) q'' := by
  induction h with
  | nil q => exact h'
  | cons happly hrest ih => exact .cons happly (ih h')

/-- Every application of a log is one of the rules, applied to the query before it. -/
theorem Applies.apply_eq_ok (h : Applies rules q as q') :
    ∀ a ∈ as, a.rule ∈ rules ∧ a.rule.apply a.before = .ok a.result := by
  induction h with
  | nil q => exact fun a ha => absurd ha List.not_mem_nil
  | cons happly hrest ih =>
    rw [List.forall_mem_cons]
    exact ⟨⟨List.mem_cons_self, happly⟩,
      fun a ha => (ih a ha).imp_left (List.mem_cons_of_mem _)⟩

/-- What every rule keeps up holds of all queries of a log, if it holds of the first one. -/
theorem Applies.inv {P : Query → Prop} (h : Applies rules q as q')
    (hstep : ∀ rule ∈ rules, ∀ q a, P q → rule.apply q = .ok a → P a.value) (hq : P q) :
    ∀ a ∈ as, P a.before ∧ P a.after := by
  induction h with
  | nil q => exact fun a ha => absurd ha List.not_mem_nil
  | cons happly hrest ih =>
    have hafter := hstep _ List.mem_cons_self _ _ hq happly
    rw [List.forall_mem_cons]
    exact ⟨⟨hq, hafter⟩, ih (fun rule hrule => hstep rule (List.mem_cons_of_mem _ hrule)) hafter⟩

/-- **Honest rules leave no gap** between two changes: whatever comes in between has returned the
    very query that it was given. -/
theorem Applies.linked (h : Applies rules q as q') (hhonest : ∀ rule ∈ rules, rule.Honest) :
    Application.Linked q (Application.changes as) q' := by
  induction h with
  | nil q => rfl
  | @cons rule rules q q' result as happly hrest ih =>
    have htail := ih fun r hr => hhonest r (List.mem_cons_of_mem _ hr)
    cases hc : result.changed with
    | true =>
      rw [Application.changes_cons_of_changed hc]
      exact ⟨rfl, htail⟩
    | false =>
      have hvalue : result.value = q := hhonest rule List.mem_cons_self q result happly hc
      rw [Application.changes_cons_of_unchanged hc]
      rwa [hvalue] at htail

end Pipeline

/-! ## Outcomes and logs -/

namespace Outcome

/-- An outcome **records** a log if it counts the changes, and tells them where a trace is kept. -/
structure Records (traced : Bool) (as : List Application) (o : Outcome) : Prop where
  /-- Every change is counted. -/
  applied : o.applied = (Application.changes as).length
  /-- Every change has its entry, if a trace is kept. -/
  trace : o.trace = if traced then (Application.changes as).map Application.entry else []

theorem Records.andThen {traced : Bool} {as bs : List Application} {o o' : Outcome}
    (h : o.Records traced as) (h' : o'.Records traced bs) :
    (o.andThen o').Records traced (as ++ bs) := by
  constructor
  · rw [Outcome.andThen, h.applied, h'.applied, Application.changes_append, List.length_append]
  · rw [Outcome.andThen, h.trace, h'.trace, Application.changes_append]
    cases traced <;> simp

end Outcome

namespace Pipeline

variable {p : Pipeline} {q : Query} {o : Outcome}

/-- A single application is recorded. -/
theorem records_of_step {rule : Rule} (h : p.step rule q = .ok o) :
    ∃ result, rule.apply q = .ok result ∧ o.query = result.value ∧
      o.Records p.traced [{ rule, before := q, result }] := by
  obtain ⟨result, happly, hrest⟩ := exists_of_bind_eq_ok h
  refine ⟨result, happly, ?_⟩
  cases hc : result.changed with
  | true =>
    simp only [hc, if_true] at hrest
    cases hrest
    refine ⟨rfl, ?_, ?_⟩ <;>
      simp [Application.changes, Application.entry, Application.after, hc]
  | false =>
    simp only [hc, Bool.false_eq_true, if_false] at hrest
    cases hrest
    refine ⟨rfl, ?_, ?_⟩ <;> simp [Application.changes, hc]

/-- Rules that are applied one after another have a log, and the outcome records it. -/
theorem applies_of_applyAll {rules : List Rule} (h : p.applyAll rules q = .ok o) :
    ∃ as, Applies rules q as o.query ∧ o.Records p.traced as := by
  induction rules generalizing q o with
  | nil =>
    cases h
    refine ⟨[], .nil q, rfl, ?_⟩
    cases p.traced <;> rfl
  | cons rule rules ih =>
    obtain ⟨first, rest, hfirst, hrest, rfl⟩ := applyAll_cons_eq_ok h
    obtain ⟨result, happly, hquery, hrecords⟩ := records_of_step hfirst
    obtain ⟨as, hlog, hrecordsRest⟩ := ih hrest
    rw [hquery] at hlog
    exact ⟨_, .cons happly hlog, hrecords.andThen hrecordsRest⟩

/-- A pass counts as one, and has the log of its rules. -/
theorem applies_of_pass (h : p.pass q = .ok o) :
    o.passes = 1 ∧ ∃ as, Applies p.rules q as o.query ∧ o.Records p.traced as := by
  obtain ⟨all, hall, rfl⟩ := pass_eq_ok h
  obtain ⟨as, hlog, hrecords⟩ := applies_of_applyAll hall
  exact ⟨rfl, as, hlog, hrecords.applied, hrecords.trace⟩

/-- **The log of a run**: all rules are applied as many times as there are passes. The induction is
    on the bound, and logs of consecutive passes are joined. -/
theorem applies_of_passes {n : Nat} (h : p.passes n q = .ok o) :
    ∃ as, Applies (List.replicate o.passes p.rules).flatten q as o.query ∧
      o.Records p.traced as := by
  induction n generalizing q o with
  | zero =>
    cases h
    refine ⟨[], .nil q, rfl, ?_⟩
    cases p.traced <;> rfl
  | succ n ih =>
    obtain ⟨first, hfirst, h⟩ := exists_of_bind_eq_ok h
    obtain ⟨hone, as, hlog, hrecords⟩ := applies_of_pass hfirst
    by_cases hzero : first.applied = 0
    · -- This pass was the last one.
      simp only [hzero, if_true] at h
      cases h
      refine ⟨as, ?_, hrecords⟩
      rw [hone]
      simpa using hlog
    · simp only [hzero, if_false] at h
      obtain ⟨rest, hrest, h⟩ := exists_of_bind_eq_ok h
      cases h
      obtain ⟨bs, hlogRest, hrecordsRest⟩ := ih hrest
      refine ⟨as ++ bs, ?_, hrecords.andThen hrecordsRest⟩
      rw [Outcome.andThen, hone, Nat.add_comm, List.replicate_succ, List.flatten_cons]
      exact hlog.append hlogRest

theorem applies_of_run (h : p.run q = .ok o) :
    ∃ as, Applies (List.replicate o.passes p.rules).flatten q as o.query ∧
      o.Records p.traced as := by
  have hq : q.select ≠ [] := by
    intro hnil
    rw [run_of_select_eq_nil _ hnil] at h
    cases h
  rw [run_eq_passes _ hq] at h
  exact applies_of_passes h

theorem applies_of_runOnce (h : p.runOnce q = .ok o) :
    o.passes = 1 ∧ ∃ as, Applies (List.replicate o.passes p.rules).flatten q as o.query ∧
      o.Records p.traced as := by
  have hq : q.select ≠ [] := by
    intro hnil
    rw [runOnce_of_select_eq_nil _ hnil] at h
    cases h
  rw [runOnce_eq_pass _ hq] at h
  obtain ⟨hone, as, hlog, hrecords⟩ := applies_of_pass h
  refine ⟨hone, as, ?_, hrecords⟩
  rw [hone]
  simpa using hlog

end Pipeline

/-! ## Faithful traces -/

namespace Application

variable {q q' : Query} {as : List Application}

theorem Linked.isChain (h : Linked q as q') : as.IsChain fun a b => a.after = b.before := by
  induction as generalizing q with
  | nil => exact .nil
  | cons a as ih =>
    obtain ⟨-, hrest⟩ := h
    cases as with
    | nil => exact .singleton a
    | cons b as => exact .cons_cons hrest.1.symm (ih hrest)

theorem Linked.before_head? (h : Linked q as q') : ∀ a ∈ as.head?, a.before = q := by
  intro a ha
  cases as with
  | nil => cases ha
  | cons b as =>
    cases ha
    exact h.1

theorem Linked.after_getLast? (h : Linked q as q') : ∀ a ∈ as.getLast?, a.after = q' := by
  induction as generalizing q with
  | nil => simp
  | cons b as ih =>
    obtain ⟨-, hrest⟩ := h
    intro a ha
    cases as with
    | nil =>
      cases ha
      exact hrest
    | cons c as =>
      rw [List.getLast?_cons_cons] at ha
      exact ih hrest a ha

end Application

namespace Outcome

/-- **A faithful outcome** of rules that were applied to a query, pass by pass, and whose trace was
    kept. -/
structure Faithful (rules : List Rule) (q : Query) (o : Outcome) : Prop where
  /-- There is a log of all passes, and the entries are those of its changes, in order. -/
  entries : ∃ as, Pipeline.Applies (List.replicate o.passes rules).flatten q as o.query ∧
    o.trace = (Application.changes as).map Application.entry
  /-- There are as many entries as changes are counted. -/
  length : o.trace.length = o.applied
  /-- Every entry says that something was changed. -/
  changed : ∀ t ∈ o.trace, t.changed = true
  /-- Every entry starts where the one before has ended. -/
  chained : o.trace.IsChain fun t t' => t.after = t'.before
  /-- The first entry starts from the query that was given. -/
  first : ∀ t ∈ o.trace.head?, t.before = q.explain
  /-- The last entry ends with the query that was returned. -/
  last : ∀ t ∈ o.trace.getLast?, t.after = o.query.explain
  /-- Without an entry the query was returned as it was given. -/
  untouched : o.trace = [] → o.query = q
  /-- The report has a line with both counts at its head. Below it stands one section for each
      entry, in order and numbered from one, with the rule and the query before and after, or else
      a line that says that there is none. -/
  report : ∃ sections : List String, sections.length = o.applied ∧
    (∀ (i : Nat) t, o.trace[i]? = some t → sections[i]? = some (
      "\n--- Rule " ++ toString (i + 1) ++ " applied: " ++ t.rule ++ " ---\n"
        ++ "Before:\n" ++ t.before ++ "\nAfter:\n" ++ t.after)) ∧
    o.report = "Rewrite completed in " ++ toString o.passes ++ " iterations, "
      ++ toString o.applied ++ " rules applied\n"
      ++ if o.applied = 0 then "  (no trace available)\n" else String.join sections

/-- The report of a trace in which every entry says that something was changed. -/
theorem report_eq {o : Outcome} (h : ∀ t ∈ o.trace, t.changed = true) :
    o.report = o.totals ++ if o.trace.length = 0 then "  (no trace available)\n" else
      String.join ((o.trace.zipIdx 1).map fun (t, n) => t.report n) := by
  rw [Outcome.report, List.filter_eq_self.mpr h]
  cases o.trace with
  | nil => rfl
  | cons t ts => rfl

/-- **An outcome that records a log of honest rules is faithful.** -/
theorem Records.faithful {rules : List Rule} {q : Query} {o : Outcome} {as : List Application}
    (hhonest : ∀ rule ∈ rules, rule.Honest)
    (hlog : Pipeline.Applies (List.replicate o.passes rules).flatten q as o.query)
    (h : o.Records true as) : o.Faithful rules q := by
  have htrace : o.trace = (Application.changes as).map Application.entry := h.trace
  have hrules : ∀ rule ∈ (List.replicate o.passes rules).flatten, rule.Honest := by
    intro rule hrule
    obtain ⟨pass, hpass, hmem⟩ := List.mem_flatten.mp hrule
    rw [List.eq_of_mem_replicate hpass] at hmem
    exact hhonest rule hmem
  have hlinked := hlog.linked hrules
  have hlength : o.trace.length = o.applied := by
    rw [htrace, List.length_map, h.applied]
  have hchanged : ∀ t ∈ o.trace, t.changed = true := by
    intro t ht
    rw [htrace] at ht
    obtain ⟨a, ha, rfl⟩ := List.mem_map.mp ht
    exact (List.mem_filter.mp ha).2
  refine ⟨⟨as, hlog, htrace⟩, hlength, hchanged, ?_, ?_, ?_, ?_, ?_⟩
  · rw [htrace, List.isChain_map]
    exact hlinked.isChain.imp fun a b hab => congrArg Query.explain hab
  · intro t ht
    rw [htrace, List.head?_map] at ht
    obtain ⟨a, ha, rfl⟩ := Option.map_eq_some_iff.mp ht
    exact congrArg Query.explain (hlinked.before_head? a ha)
  · intro t ht
    rw [htrace, List.getLast?_map] at ht
    obtain ⟨a, ha, rfl⟩ := Option.map_eq_some_iff.mp ht
    exact congrArg Query.explain (hlinked.after_getLast? a ha)
  · intro hnil
    rw [htrace, List.map_eq_nil_iff] at hnil
    rw [hnil] at hlinked
    exact hlinked.symm
  · refine ⟨(o.trace.zipIdx 1).map fun (t, n) => t.report n, ?_, ?_, ?_⟩
    · rw [List.length_map, List.length_zipIdx, hlength]
    · intro i t ht
      rw [List.getElem?_map, List.getElem?_zipIdx, ht, Nat.add_comm]
      rfl
    · rw [report_eq hchanged, hlength]
      rfl

/-! ## Without a trace -/

/-- An outcome whose trace was not kept. -/
def untraced (o : Outcome) : Outcome := { o with trace := [] }

end Outcome

namespace Pipeline

/-- The same pipeline with its trace switched on or off. -/
def withTrace (p : Pipeline) (traced : Bool) : Pipeline := { p with traced }

variable (p : Pipeline)

theorem rules_withTrace (traced : Bool) : (p.withTrace traced).rules = p.rules := rfl

theorem step_withTrace_false (rule : Rule) (q : Query) :
    (p.withTrace false).step rule q = ((p.withTrace true).step rule q).map Outcome.untraced := by
  cases happly : rule.apply q with
  | error e => simp [step, happly, bind, Except.bind, Except.map]
  | ok result =>
    cases hc : result.changed <;>
      simp [step, happly, hc, bind, Except.bind, pure, Except.pure, Except.map, Outcome.untraced,
        withTrace]

theorem applyAll_withTrace_false (rules : List Rule) (q : Query) :
    (p.withTrace false).applyAll rules q
      = ((p.withTrace true).applyAll rules q).map Outcome.untraced := by
  induction rules generalizing q with
  | nil => rfl
  | cons rule rules ih =>
    simp only [applyAll, step_withTrace_false]
    cases (p.withTrace true).step rule q with
    | error e => rfl
    | ok first =>
      -- The other rules start from the same query with and without a trace.
      have hrest := ih first.query
      simp only [Except.map, bind, Except.bind, Outcome.untraced] at hrest ⊢
      rw [hrest]
      cases (p.withTrace true).applyAll rules first.query <;> rfl

theorem pass_withTrace_false (q : Query) :
    (p.withTrace false).pass q = ((p.withTrace true).pass q).map Outcome.untraced := by
  have hall := p.applyAll_withTrace_false p.rules q
  unfold pass
  rw [rules_withTrace, rules_withTrace, hall]
  cases (p.withTrace true).applyAll p.rules q <;> rfl

/-- **A trace does not disturb passes**, however many are made. -/
theorem passes_withTrace_false (n : Nat) (q : Query) :
    (p.withTrace false).passes n q = ((p.withTrace true).passes n q).map Outcome.untraced := by
  induction n generalizing q with
  | zero => rfl
  | succ n ih =>
    simp only [passes, pass_withTrace_false]
    cases (p.withTrace true).pass q with
    | error e => rfl
    | ok first =>
      -- A trace does not count, so both runs stop here or go on.
      have hrest := ih first.query
      by_cases hzero : first.applied = 0
      · simp [Except.map, bind, Except.bind, pure, Except.pure, Outcome.untraced, hzero]
      · simp only [Except.map, bind, Except.bind, Outcome.untraced, hzero, if_false] at hrest ⊢
        rw [hrest]
        cases (p.withTrace true).passes n first.query <;> rfl

theorem run_withTrace_false (q : Query) :
    (p.withTrace false).run q = ((p.withTrace true).run q).map Outcome.untraced := by
  by_cases hq : q.select = []
  · rw [run_of_select_eq_nil _ hq, run_of_select_eq_nil _ hq]
    rfl
  · rw [run_eq_passes _ hq, run_eq_passes _ hq]
    exact p.passes_withTrace_false p.maxPasses q

theorem runOnce_withTrace_false (q : Query) :
    (p.withTrace false).runOnce q = ((p.withTrace true).runOnce q).map Outcome.untraced := by
  by_cases hq : q.select = []
  · rw [runOnce_of_select_eq_nil _ hq, runOnce_of_select_eq_nil _ hq]
    rfl
  · rw [runOnce_eq_pass _ hq, runOnce_eq_pass _ hq]
    exact p.pass_withTrace_false q

variable {p : Pipeline} {q : Query} {o : Outcome}

/-! ## Runs -/

/-- Without a trace there is nothing to tell but both counts. -/
theorem untold_of_eq_map {x : Except Error Outcome} (h : x.map Outcome.untraced = .ok o) :
    o.trace = [] ∧ o.report = "Rewrite completed in " ++ toString o.passes ++ " iterations, "
      ++ toString o.applied ++ " rules applied\n" ++ "  (no trace available)\n" := by
  cases x with
  | error e => cases h
  | ok o' =>
    cases h
    exact ⟨rfl, rfl⟩

/-- **With a trace, a run is faithful**, as far as its rules are honest. -/
theorem faithful_of_run (hhonest : ∀ rule ∈ p.rules, rule.Honest)
    (h : (p.withTrace true).run q = .ok o) : o.Faithful p.rules q := by
  obtain ⟨as, hlog, hrecords⟩ := applies_of_run h
  exact hrecords.faithful hhonest hlog

theorem faithful_of_runOnce (hhonest : ∀ rule ∈ p.rules, rule.Honest)
    (h : (p.withTrace true).runOnce q = .ok o) : o.passes = 1 ∧ o.Faithful p.rules q := by
  obtain ⟨hone, as, hlog, hrecords⟩ := applies_of_runOnce h
  exact ⟨hone, hrecords.faithful hhonest hlog⟩

/-! ## The result -/

/-- **Traces are faithful and disturb nothing.** Under honest rules, for a run and for a single
    pass:

    * With and without a trace they succeed for the same queries, with the same query, the same
      number of passes and the same count of changes.
    * Without a trace there is no entry, and below the line with both counts the report says so.
    * With a trace they are faithful: one entry for each change, in order, named after its rule,
      from the first query to the last one without a gap, and below the line with both counts one
      section of the report for each entry. -/
theorem run_faithful (p : Pipeline) (hhonest : ∀ rule ∈ p.rules, rule.Honest) (q : Query) :
    ((p.withTrace false).run q = ((p.withTrace true).run q).map Outcome.untraced ∧
      (p.withTrace false).runOnce q = ((p.withTrace true).runOnce q).map Outcome.untraced) ∧
    (∀ o, (p.withTrace false).run q = .ok o ∨ (p.withTrace false).runOnce q = .ok o →
      o.trace = [] ∧ o.report = "Rewrite completed in " ++ toString o.passes ++ " iterations, "
        ++ toString o.applied ++ " rules applied\n" ++ "  (no trace available)\n") ∧
    (∀ o, (p.withTrace true).run q = .ok o → o.Faithful p.rules q) ∧
    (∀ o, (p.withTrace true).runOnce q = .ok o → o.passes = 1 ∧ o.Faithful p.rules q) := by
  have hrun := p.run_withTrace_false q
  have hrunOnce := p.runOnce_withTrace_false q
  refine ⟨⟨hrun, hrunOnce⟩, ?_, fun o ho => ?_, fun o ho => ?_⟩
  · rintro o (ho | ho)
    · exact untold_of_eq_map (hrun ▸ ho)
    · exact untold_of_eq_map (hrunOnce ▸ ho)
  · exact faithful_of_run hhonest ho
  · exact faithful_of_runOnce hhonest ho

/-- Two passes count down from two, and a third one finds nothing to do: the trace has two entries
    that meet in the query between them, and the report a section for each of them. -/
theorem run_faithful_countdown :
    let p : Pipeline := { rules := [countdown], maxPasses := 5 }
    let q : UInt64 → Query := fun n => { select := [.identifier "x"], limit := some n }
    let o : Outcome :=
      { query := q 0, passes := 3, applied := 2
        trace :=
          [{ rule := "Countdown", before := "Select\n  Identifier(x)\nLimit 2\n"
             after := "Select\n  Identifier(x)\nLimit 1\n" },
           { rule := "Countdown", before := "Select\n  Identifier(x)\nLimit 1\n"
             after := "Select\n  Identifier(x)\nLimit 0\n" }] }
    (∀ rule ∈ p.rules, rule.Honest) ∧ (p.withTrace true).run (q 2) = .ok o ∧
      (p.withTrace false).run (q 2) = .ok o.untraced ∧ o.Faithful p.rules (q 2) ∧
      o.report = "Rewrite completed in 3 iterations, 2 rules applied\n"
        ++ "\n--- Rule 1 applied: Countdown ---\n"
        ++ "Before:\nSelect\n  Identifier(x)\nLimit 2\n"
        ++ "\nAfter:\nSelect\n  Identifier(x)\nLimit 1\n"
        ++ "\n--- Rule 2 applied: Countdown ---\n"
        ++ "Before:\nSelect\n  Identifier(x)\nLimit 1\n"
        ++ "\nAfter:\nSelect\n  Identifier(x)\nLimit 0\n" ∧
      o.untraced.report = "Rewrite completed in 3 iterations, 2 rules applied\n"
        ++ "  (no trace available)\n" := by
  intro p q o
  have hhonest : ∀ rule ∈ p.rules, rule.Honest := by
    intro rule hrule
    rw [List.mem_singleton.mp hrule]
    exact countdown_honest
  obtain ⟨⟨hoff, -⟩, huntold, hfaithful, -⟩ := run_faithful p hhonest (q 2)
  have hrun : (p.withTrace true).run (q 2) = .ok o := by
    decide +kernel
  have hrunOff : (p.withTrace false).run (q 2) = .ok o.untraced := by
    rw [hoff, hrun]
    rfl
  refine ⟨hhonest, hrun, hrunOff, hfaithful o hrun, by decide +kernel, ?_⟩
  exact (huntold _ (.inl hrunOff)).2.trans (by decide +kernel)

end Pipeline

end QueryTuning
