import Mathlib.Data.List.Forall2
import Mathlib.Data.Option.Basic
import QueryTuning.Proofs.Expr.Path
import QueryTuning.Proofs.Pipeline.NormalForm
import QueryTuning.Proofs.Substitutes.Grammar

/-!
# What tuning makes of a query

`Query.Tuned` describes the tuned query without the rules that make it: by its limit, and node by
node. The description leaves nothing open, and the query that `tune` gives is the one that it
describes.

* `Policy.countTarget` : the function that a selected expression is renamed to.
* `Policy.TunesNode`, `Policy.TunesRoot` : what becomes of a node, and of all nodes of a root.
* `Query.Tuned` : what becomes of a query.
* `tune_eq_ok_tuned` : `tune` does what is described, and refuses a query that selects nothing.
-/

namespace QueryTuning

/-! ## The description -/

namespace Policy

/-- The function that a selected expression is renamed to, if it is renamed. The expression has to
    be a distinct count of a single column. If segments are partitioned by the column, they are
    counted one by one, and if a row may hold several values of it, all of them are counted, as far
    as the policy allows it. Where both fit, the precedence decides. -/
def countTarget (policy : Policy) (table : Table) : Expr → Option String
  | .call f [.identifier c] =>
    if canonicalName f = FunctionName.distinctCount then
      let bySegment := policy.segmentPartitioned && table.isPartitionColumn c
      let byValues := policy.multiValued && table.isMultiValued c
      if bySegment ∧ ¬ (byValues ∧ policy.precedence = .multiValue) then
        some FunctionName.segmentPartitionedDistinctCount
      else if byValues then
        some FunctionName.distinctCountMV
      else
        none
    else
      none
  | _ => none

/-- Whether the policy puts something in the place of a function: an approximate aggregation, if the
    policy allows it. Case and underscores of the name do not count. -/
def Replaces (policy : Policy) (f : String) (new : Substitution) : Prop :=
  policy.approximate = true ∧ Approximates (canonicalName f) new

/-- What becomes of a single node, which may have been given a new name before. Nothing is said
    about the operands of a call but how many there are; they are nodes of their own. -/
inductive TunesNode (policy : Policy) (renamed : Option String) : Expr → Expr → Prop where
  /-- A constant is kept. -/
  | literal (v : Literal) : TunesNode policy renamed (.literal v) (.literal v)
  /-- The name of a column is kept. -/
  | identifier (x : String) : TunesNode policy renamed (.identifier x) (.identifier x)
  /-- A call keeps its name, old or new, if the policy puts nothing in its place. -/
  | kept (f : String) (es es' : List Expr) (hlength : es'.length = es.length)
      (hnone : ∀ new, ¬ policy.Replaces (renamed.getD f) new) :
      TunesNode policy renamed (.call f es) (.call (renamed.getD f) es')
  /-- A call gets the name that the policy puts in the place of its own, old or new, and if there
      is a number with that name, it comes behind all operands. -/
  | replaced (f : String) (es es' : List Expr) (new : Substitution)
      (hlength : es'.length = es.length)
      (hnew : policy.Replaces (renamed.getD f) new) :
      TunesNode policy renamed (.call f es)
        (.call new.target (es' ++ new.appended.toList.map (.literal ∘ .int)))

/-- What becomes of a root: every node stays in its place and is tuned there. Only the root itself
    may have been renamed before. -/
def TunesRoot (policy : Policy) (renamed : Option String) (r r' : Expr) : Prop :=
  ∀ path d, r.at? path = some d →
    ∃ d', r'.at? path = some d' ∧
      policy.TunesNode (if path = [] then renamed else none) d d'

end Policy

/-- **A tuned query**, described by its limit and node by node. -/
structure Query.Tuned (policy : Policy) (table : Table) (q q' : Query) : Prop where
  /-- The limit is the one that the query had, or else the default, but not above the ceiling. -/
  limit : q'.limit = some (min (q.limit.getD policy.defaultLimit) policy.ceiling)
  /-- As many expressions are selected, and distinct counts among them may be renamed. -/
  select : List.Forall₂ (fun r r' => policy.TunesRoot (policy.countTarget table r) r r')
    q.select q'.select
  /-- There is a condition if there was one. -/
  having : Option.Rel (policy.TunesRoot none) q.having q'.having
  /-- There are as many sort keys, and their directions are the same. -/
  orderBy : List.Forall₂
    (fun k k' => k'.direction = k.direction ∧ policy.TunesRoot none k.expr k'.expr)
    q.orderBy q'.orderBy

/-! ## The description leaves nothing open -/

namespace Policy

variable {policy : Policy} {table : Table}

/-- Below the root of a call, nothing was renamed before. -/
theorem TunesRoot.operand {renamed : Option String} {f g : String} {es ds : List Expr}
    (h : policy.TunesRoot renamed (.call f es) (.call g ds)) {i : Nat} {e d : Expr}
    (he : es[i]? = some e) (hd : ds[i]? = some d) : policy.TunesRoot none e d := by
  intro path c hc
  have hpath : (Expr.call f es).at? (i :: path) = some c := by
    rw [Expr.at?_cons, Expr.children, he]
    exact hc
  obtain ⟨c', hc', hnode⟩ := h (i :: path) c hpath
  rw [Expr.at?_cons, Expr.children, hd] at hc'
  exact ⟨c', hc', by simpa using hnode⟩

/-- Operands that are all determined are determined as a list. -/
theorem operands_unique {es ds ds' : List Expr} (hlength : ds.length = es.length)
    (hlength' : ds'.length = es.length)
    (h : ∀ (i : Nat) e d d', es[i]? = some e → ds[i]? = some d → ds'[i]? = some d' → d = d') :
    ds = ds' := by
  refine List.ext_getElem (hlength.trans hlength'.symm) fun i hi hi' => ?_
  have hlt : i < es.length := hlength ▸ hi
  exact h i es[i] ds[i] ds'[i] (List.getElem?_eq_getElem hlt) (List.getElem?_eq_getElem hi)
    (List.getElem?_eq_getElem hi')

/-- The node of a root is tuned as a root. -/
theorem TunesRoot.node {renamed : Option String} {r r' : Expr}
    (h : policy.TunesRoot renamed r r') : policy.TunesNode renamed r r' := by
  obtain ⟨d', hd', hnode⟩ := h [] r rfl
  cases hd'
  exact hnode

/-- **A root is tuned in one way only.** The induction is on the root: its node fixes the function
    and what is appended, and each operand is a root of its own. -/
theorem TunesRoot.unique {renamed : Option String} {r r₁ r₂ : Expr}
    (h₁ : policy.TunesRoot renamed r r₁) (h₂ : policy.TunesRoot renamed r r₂) : r₁ = r₂ := by
  induction r using Expr.inductionOn generalizing renamed r₁ r₂ with
  | literal v => cases h₁.node; cases h₂.node; rfl
  | identifier x => cases h₁.node; cases h₂.node; rfl
  | call f es ih =>
    cases h₁.node with
    | kept _ _ es₁ hlength₁ hnone =>
      cases h₂.node with
      | kept _ _ es₂ hlength₂ _ =>
        have hes : es₁ = es₂ := operands_unique hlength₁ hlength₂ fun i e d d' he hd hd' =>
          ih e (List.mem_of_getElem? he) (h₁.operand he hd) (h₂.operand he hd')
        rw [hes]
      | replaced _ _ es₂ new hlength₂ hnew => exact absurd hnew (hnone new)
    | replaced _ _ es₁ new hlength₁ hnew =>
      cases h₂.node with
      | kept _ _ es₂ hlength₂ hnone => exact absurd hnew (hnone new)
      | replaced _ _ es₂ new' hlength₂ hnew' =>
        obtain rfl : new = new' := hnew.2.unique hnew'.2
        -- The operands that were there before stand in front of what is appended.
        have hes : es₁ = es₂ := operands_unique hlength₁ hlength₂ fun i e d d' he hd hd' => by
          refine ih e (List.mem_of_getElem? he) (h₁.operand he ?_) (h₂.operand he ?_)
          · rw [List.getElem?_append_left (List.getElem?_eq_some_iff.mp hd).1, hd]
          · rw [List.getElem?_append_left (List.getElem?_eq_some_iff.mp hd').1, hd']
        rw [hes]

end Policy

/-- What two optional values are related to is determined if it is for their contents. -/
theorem optionRel_unique {α β : Type} {R : α → β → Prop}
    (hR : ∀ a b c, R a b → R a c → b = c) {a : Option α} {b c : Option β}
    (hb : Option.Rel R a b) (hc : Option.Rel R a c) : b = c := by
  cases hb with
  | some hb =>
    cases hc with
    | some hc => rw [hR _ _ _ hb hc]
  | none =>
    cases hc
    rfl

/-- **A query is tuned in one way only.** -/
theorem Query.Tuned.unique {policy : Policy} {table : Table} {q q₁ q₂ : Query}
    (h₁ : q.Tuned policy table q₁) (h₂ : q.Tuned policy table q₂) : q₁ = q₂ := by
  have hselect : q₁.select = q₂.select :=
    List.right_unique_forall₂' (fun _ _ _ h h' => h.unique h') h₁.select h₂.select
  have hhaving : q₁.having = q₂.having :=
    optionRel_unique (fun _ _ _ h h' => h.unique h') h₁.having h₂.having
  have horderBy : q₁.orderBy = q₂.orderBy := by
    refine List.right_unique_forall₂' (fun k k₁ k₂ hk₁ hk₂ => ?_) h₁.orderBy h₂.orderBy
    have hexpr : k₁.expr = k₂.expr := hk₁.2.unique hk₂.2
    have hdirection : k₁.direction = k₂.direction := hk₁.1.trans hk₂.1.symm
    cases k₁
    cases k₂
    simp_all
  have hlimit : q₁.limit = q₂.limit := h₁.limit.trans h₂.limit.symm
  cases q₁
  cases q₂
  simp_all

/-! ## The tuned query -/

namespace Policy

/-- An expression with the approximate aggregations that the policy asks for. -/
def approximated (policy : Policy) (e : Expr) : Expr :=
  if policy.approximate then (Substitutes.approximate.substitute e).value else e

/-- An expression under another name, if one is given. -/
def renamedTo (renamed : Option String) (e : Expr) : Expr :=
  match renamed with
  | some f => e.rename f
  | none => e

/-- A root of the tuned query. -/
def tunedRoot (policy : Policy) (renamed : Option String) (r : Expr) : Expr :=
  policy.approximated (renamedTo renamed r)

/-- Approximate aggregations keep every part in its place. -/
theorem at?_approximated (policy : Policy) {path : List Nat} {e d : Expr}
    (h : e.at? path = some d) :
    (policy.approximated e).at? path = some (policy.approximated d) := by
  unfold approximated
  split
  · exact Substitutes.at?_substitute _ h
  · exact h

/-- Below the root, another name makes no difference. -/
theorem at?_renamedTo_cons (renamed : Option String) (i : Nat) (path : List Nat) (e : Expr) :
    (renamedTo renamed e).at? (i :: path) = e.at? (i :: path) := by
  cases renamed with
  | none => rfl
  | some f => exact Expr.at?_rename_cons f i path e

/-- A call under another name, if one is given. -/
theorem renamedTo_call (renamed : Option String) (f : String) (es : List Expr) :
    renamedTo renamed (.call f es) = .call (renamed.getD f) es := by
  cases renamed <;> rfl

/-- The node of a tuned root is tuned as described. -/
theorem tunesNode_tunedRoot (policy : Policy) (renamed : Option String) (r : Expr) :
    policy.TunesNode renamed r (policy.tunedRoot renamed r) := by
  cases r with
  | literal v =>
    have hroot : policy.tunedRoot renamed (.literal v) = .literal v := by
      cases renamed <;> by_cases h : policy.approximate <;>
        simp [tunedRoot, renamedTo, Expr.rename, approximated, h]
    rw [hroot]
    exact .literal v
  | identifier x =>
    have hroot : policy.tunedRoot renamed (.identifier x) = .identifier x := by
      cases renamed <;> by_cases h : policy.approximate <;>
        simp [tunedRoot, renamedTo, Expr.rename, approximated, h]
    rw [hroot]
    exact .identifier x
  | call f es =>
    rw [tunedRoot, renamedTo_call, approximated]
    by_cases happrox : policy.approximate
    · rw [if_pos happrox, Substitutes.substitute_call]
      cases hnew : Substitutes.approximate.lookup (renamed.getD f) with
      | none =>
        simp only [Substitutes.substituteCall, hnew]
        refine .kept f es _ (by simp) fun new h => ?_
        rw [Substitutes.lookup_approximate_eq_some_iff.mpr h.2] at hnew
        cases hnew
      | some new =>
        simp only [Substitutes.substituteCall, hnew]
        exact .replaced f es _ new (by simp)
          ⟨happrox, Substitutes.lookup_approximate_eq_some_iff.mp hnew⟩
    · rw [if_neg happrox]
      exact .kept f es es rfl fun new h => happrox h.1

/-- **A tuned root is tuned as described**, at every node. -/
theorem tunesRoot_tunedRoot (policy : Policy) (renamed : Option String) (r : Expr) :
    policy.TunesRoot renamed r (policy.tunedRoot renamed r) := by
  intro path d hd
  cases path with
  | nil =>
    cases hd
    exact ⟨_, rfl, policy.tunesNode_tunedRoot renamed r⟩
  | cons i path =>
    -- Below the root it makes no difference that the root was renamed.
    rw [← at?_renamedTo_cons renamed] at hd
    refine ⟨policy.approximated d, policy.at?_approximated hd, ?_⟩
    exact policy.tunesNode_tunedRoot none d

/-- The tuned query. -/
def tuned (policy : Policy) (table : Table) (q : Query) : Query where
  select := q.select.map fun r => policy.tunedRoot (policy.countTarget table r) r
  having := q.having.map (policy.tunedRoot none)
  orderBy := q.orderBy.map fun key => { key with expr := policy.tunedRoot none key.expr }
  limit := some (min (q.limit.getD policy.defaultLimit) policy.ceiling)

/-- The tuned query is tuned as described. -/
theorem tuned_tuned (policy : Policy) (table : Table) (q : Query) :
    q.Tuned policy table (policy.tuned table q) where
  limit := rfl
  select := by
    rw [tuned, List.forall₂_map_right_iff, List.forall₂_same]
    exact fun r _ => policy.tunesRoot_tunedRoot _ r
  having := by
    rw [tuned]
    cases q.having with
    | none => exact .none
    | some r => exact .some (policy.tunesRoot_tunedRoot none r)
  orderBy := by
    rw [tuned, List.forall₂_map_right_iff, List.forall₂_same]
    exact fun key _ => ⟨rfl, policy.tunesRoot_tunedRoot none key.expr⟩

/-! ## The rules of a policy make the tuned query -/

/-- The plan of a policy chooses what is described. -/
theorem bind_choose_eq_countTarget (policy : Policy) (table : Table) (e : Expr) :
    e.countedColumn?.bind (CountingPlan.ofPolicy policy table).choose
      = policy.countTarget table e := by
  cases hc : e.countedColumn? with
  | none =>
    unfold countTarget
    split
    · rename_i f c
      have hne : canonicalName f ≠ FunctionName.distinctCount := by
        intro heq
        rw [Expr.countedColumn?_call c heq] at hc
        cases hc
      simp [hne]
    · rfl
  | some c =>
    obtain ⟨f, rfl, hf⟩ := Expr.countedColumn?_eq_some hc
    simp only [Option.bind_some, CountingPlan.choose, CountingPlan.ofPolicy, countTarget, hf,
      if_true]
    cases policy.segmentPartitioned && table.isPartitionColumn c <;>
      cases policy.multiValued && table.isMultiValued c <;>
      cases policy.precedence <;> simp

theorem value_chooseCount_ofPolicy (policy : Policy) (table : Table) (e : Expr) :
    (e.chooseCount (CountingPlan.ofPolicy policy table).choose).value
      = renamedTo (policy.countTarget table e) e := by
  rw [Expr.chooseCount, bind_choose_eq_countTarget]
  cases policy.countTarget table e <;> rfl

end Policy

namespace BuiltinRule

open Pipeline (rulesForTable)

variable {policy : Policy} {table : Table}

/-- The choice that is heard in the pipeline of a policy is that of its plan. Without a plan in the
    pipeline, the plan would have chosen nothing. -/
theorem firstChoice_heard_rulesForTable (policy : Policy) (table : Table) :
    firstChoice (heard (rulesForTable policy table))
      = (CountingPlan.ofPolicy policy table).choose := by
  funext c
  unfold rulesForTable
  cases hsegment : policy.segmentPartitioned <;> cases hvalues : policy.multiValued <;>
    cases policy.approximate <;>
    simp [heard, isSubstituting, firstChoice, choice, CountingPlan.choose, CountingPlan.ofPolicy,
      hsegment, hvalues]

theorem approximated_rulesForTable (policy : Policy) (table : Table) :
    approximated (rulesForTable policy table) = policy.approximated := by
  funext e
  unfold approximated Policy.approximated rulesForTable
  cases policy.approximate <;> cases policy.segmentPartitioned <;> cases policy.multiValued <;> rfl

/-- The limit that a policy implies is its default, cut down to the ceiling beforehand. That makes
    no difference, because the ceiling counts anyway. -/
theorem settledLimit_rulesForTable (policy : Policy) (table : Table) (limit : Option UInt64) :
    settledLimit (rulesForTable policy table) limit
      = some (min (limit.getD policy.defaultLimit) policy.ceiling) := by
  have hcaps : (rulesForTable policy table).filterMap cap?
      = [(policy.ceiling, policy.impliedLimit)] := by
    unfold rulesForTable
    cases policy.approximate <;> cases policy.segmentPartitioned <;>
      cases policy.multiValued <;> rfl
  have himplied : min (limit.getD policy.impliedLimit) policy.ceiling
      = min (limit.getD policy.defaultLimit) policy.ceiling := by
    cases limit with
    | none => grind [Policy.impliedLimit, Std.min_eq_if]
    | some n => rfl
  unfold settledLimit
  rw [hcaps, ← himplied]
  rfl

/-- **The rules of a policy make the tuned query**, which is their normal form. -/
theorem adjustAll_rulesForTable (policy : Policy) (table : Table) (q : Query) :
    adjustAll (rulesForTable policy table) q = policy.tuned table q := by
  rw [adjustAll_eq_normalForm (Pipeline.approximate_of_mem_rulesForTable policy table)]
  unfold normalForm
  rw [firstChoice_heard_rulesForTable, approximated_rulesForTable, settledLimit_rulesForTable]
  simp only [Policy.value_chooseCount_ofPolicy]
  rfl

end BuiltinRule

/-- On a query that selects something, tuning succeeds with the tuned query. -/
theorem tune_eq_ok (policy : Policy) (table : Table) {q : Query} (hq : q.select ≠ []) :
    tune policy table q = .ok (policy.tuned table q) := by
  rw [Pipeline.tune_eq_adjustAll policy table hq, BuiltinRule.adjustAll_rulesForTable]

/-! ## The result -/

/-- **What tuning makes of a query.** A query that selects nothing is refused, and no other query
    is. From any other query tuning makes the one query that the description admits. -/
theorem tune_eq_ok_tuned (policy : Policy) (table : Table) (q : Query) :
    (∀ e, tune policy table q = .error e ↔ q.select = [] ∧ e = .emptySelect) ∧
    (q.select ≠ [] →
      ∃ q', tune policy table q = .ok q' ∧ ∀ q'', q.Tuned policy table q'' ↔ q'' = q') := by
  have htuned := policy.tuned_tuned table q
  constructor
  · intro e
    by_cases hq : q.select = []
    · rw [Pipeline.tune_of_select_eq_nil policy table hq]
      simp [hq, eq_comm]
    · rw [tune_eq_ok policy table hq]
      simp [hq]
  · intro hq
    refine ⟨_, tune_eq_ok policy table hq, fun q'' => ⟨fun h => h.unique htuned, fun h => ?_⟩⟩
    rw [h]
    exact htuned

/-- Distinct counts of two columns with several values in a row, one of them partitioned. Partitions
    take precedence where both variants fit, and below the root of a selected expression none is
    chosen. If approximation is allowed as well, only the count by segments stays exact. -/
theorem tune_eq_ok_tuned_sample :
    let columns : Std.ExtTreeSet String := (∅ : Std.ExtTreeSet String).insert "tag"
    let schema : Schema :=
      (({ name := "s" } : Schema).add (.multiValued "tag" .string)).add (.multiValued "note" .json)
    let table : Table := { partitionColumns := columns, schema := some schema }
    let exact : Policy := { ceiling := 50, precedence := .segmentPartitioned }
    let tag : List Expr := [.identifier "tag"]
    let note : List Expr := [.identifier "note"]
    let count : Expr := .call "Distinct_Count" tag
    let q : Query :=
      { select := [count, .call "DISTINCTCOUNT" note, .call "PERCENTILE_99" [count]]
        having := some count, orderBy := [{ expr := count, direction := .descending }]
        limit := some 70 }
    let counted : Query :=
      { select := [.call "segmentpartitioneddistinctcount" tag, .call "distinctcountmv" note,
          .call "PERCENTILE_99" [count]]
        having := some count, orderBy := [{ expr := count, direction := .descending }]
        limit := some 50 }
    let smart : Expr := .call "distinctcountsmarthll" tag
    let estimated : Query :=
      { select := [.call "segmentpartitioneddistinctcount" tag, .call "distinctcountsmarthll" note,
          .call "percentilesmarttdigest" [smart, .literal (.int 99)]]
        having := some smart, orderBy := [{ expr := smart, direction := .descending }]
        limit := some 50 }
    q.select ≠ [] ∧
      (tune exact table q = .ok counted ∧ q.Tuned exact table counted) ∧
      tune { exact with approximate := true } table q = .ok estimated ∧
      q.Tuned { exact with approximate := true } table estimated := by
  intro columns schema table exact tag note count q counted smart estimated
  have hq : q.select ≠ [] := List.cons_ne_nil _ _
  have hsample {policy : Policy} {q' : Query} (heq : policy.tuned table q = q') :
      tune policy table q = .ok q' ∧ q.Tuned policy table q' := by
    obtain ⟨made, hmade, htuned⟩ := (tune_eq_ok_tuned policy table q).2 hq
    have hmade' : q' = made := (htuned q').mp (heq ▸ policy.tuned_tuned table q)
    exact ⟨hmade' ▸ hmade, (htuned q').mpr hmade'⟩
  refine ⟨hq, hsample ?_, hsample ?_⟩
  · simp only [exact, table, schema, columns, q, counted, count, tag, note]
    decide +kernel
  · simp only [exact, table, schema, columns, q, estimated, smart, count, tag, note]
    decide +kernel

end QueryTuning
