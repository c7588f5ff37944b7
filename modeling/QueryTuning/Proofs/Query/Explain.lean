import QueryTuning.Proofs.Expr.Drawing
import QueryTuning.Proofs.Pipeline.Fixpoint
import QueryTuning.Proofs.Pipeline.Trace
import QueryTuning.Proofs.Query.Text

/-!
# Drawings of queries

A query is drawn clause by clause, and nothing but margins holds the clauses apart. The headings
stand at the margin, every row of an expression stands behind one, and each heading begins with
another letter, so the clauses are made out one after another and the query with them, whatever
names it has. A trace shows drawings, and therefore it shows every change.

* `Query.Legible` : the queries whose drawings are made out.
* `Query.toList_explain` : a drawing is the text of its rows.
* `Query.explain_inj` : queries are told by their drawings.
* `BuiltinRule.legible_adjust` : the library draws nothing that could not be made out.
* `Query.explain_tells` : drawings tell queries, and traces show what was changed.
-/

namespace QueryTuning

/-- A limit is spelled with digits. -/
theorem mem_limitText {n : UInt64} {c : Char} (hc : c ∈ (limitText n).toList) :
    c = '-' ∨ c.isDigit = true :=
  Numeral.mem_text_ofInt (n := (n.toNat : Int)) hc

theorem exists_limitText_eq_cons (n : UInt64) :
    ∃ c cs, (limitText n).toList = c :: cs ∧ (c = '-' ∨ c.isDigit = true) :=
  Numeral.exists_text_ofInt_eq_cons n.toNat

namespace Query

/-- A query is **legible** in a drawing if all its expressions are. -/
def Legible (q : Query) : Prop := ∀ e ∈ q.roots, e.Legible

instance : DecidablePred Legible := fun q =>
  inferInstanceAs (Decidable (∀ e ∈ q.roots, e.Legible))

theorem legible_iff {q : Query} :
    q.Legible ↔ (∀ e ∈ q.select, e.Legible) ∧ (∀ e ∈ q.having, e.Legible) ∧
      ∀ key ∈ q.orderBy, key.expr.Legible := by
  simp [Legible, roots, or_imp, forall_and]

/-! ## Rows -/

/-- The margin of the expressions below a heading. -/
def margin : List Char := "  ".toList

/-- The margin of the expressions below a sort order. -/
def keyMargin : List Char := "    ".toList

/-- The heading of the select list and the rows below it. -/
def selectRows (q : Query) : List (List Char) :=
  "Select".toList :: (q.select.map Expr.tree).flatMap (Tree.rows margin)

/-- The heading of the condition and the rows below it, if there is a condition. -/
def havingRows (q : Query) : List (List Char) :=
  optionalPiece ["Having".toList] (fun e => e.tree.rows margin) q.having

/-- The row of a sort order, and the rows of what is compared. -/
def keyRows (key : SortKey) : List (List Char) :=
  (margin ++ key.direction.text.toList) :: key.expr.tree.rows keyMargin

/-- The heading of the sort keys and the rows below it, if there are any. -/
def orderByRows (q : Query) : List (List Char) :=
  optionalPiece ["OrderBy".toList] (·.flatMap keyRows) q.keys?

/-- What stands for a limit in a drawing. -/
def limitWord : Option UInt64 → String
  | some n => limitText n
  | none => "(unset)"

/-- The row of the limit. -/
def limitRow (q : Query) : List Char := "Limit ".toList ++ (limitWord q.limit).toList

theorem limitRow_eq (q : Query) : q.limitRow = "Limit ".toList ++ (limitWord q.limit).toList := rfl

/-- The rows of a drawing. -/
def rows (q : Query) : List (List Char) :=
  q.selectRows ++ (q.havingRows ++ (q.orderByRows ++ [q.limitRow]))

/-- The rows of a legible expression behind a margin are whole. -/
theorem whole_rows_tree {e : Expr} (h : e.Legible) {front : List Char} (hfront : '\n' ∉ front) :
    ∀ row ∈ e.tree.rows front, Text.Whole row :=
  Tree.whole_rows hfront h.closesRow

/-- The block of a legible expression is the text of its rows. -/
theorem toList_block {e : Expr} (h : e.Legible) (front : String) :
    (block front e).toList = Text.unlines (e.tree.rows front.toList) := by
  have hwhole : ∀ row ∈ e.tree.rows [], Text.Whole row := whole_rows_tree h List.not_mem_nil
  have hne : e.tree.rows [] ≠ [] := by
    cases e.tree
    exact List.cons_ne_nil _ _
  rw [block, String.toList_append, Tree.rows_eq_map front.toList]
  exact Text.toList_indent_unlines hwhole hne (Tree.toList_draw e.tree)

/-- Texts of rows are joined by putting the rows below one another. -/
theorem toList_join_map {α : Type} {f : α → String} {g : α → List (List Char)} {as : List α}
    (h : ∀ a ∈ as, (f a).toList = Text.unlines (g a)) :
    (String.join (as.map f)).toList = Text.unlines (as.flatMap g) := by
  rw [String.toList_join, List.flatMap_map, List.flatMap_congr h, Text.unlines, List.flatMap_assoc]
  rfl

/-- The block of a sort key is the text of its rows. -/
theorem toList_keyBlock {key : SortKey} (h : key.expr.Legible) :
    (keyBlock key).toList = Text.unlines (keyRows key) := by
  rw [keyRows, Text.unlines_cons, keyMargin, ← toList_block h]
  simp [keyBlock, margin]

theorem toList_explainSelect {q : Query} (h : ∀ e ∈ q.select, e.Legible) :
    q.explainSelect.toList = Text.unlines q.selectRows := by
  have hselect := toList_join_map fun e he => toList_block (h e he) "  "
  rw [selectRows, Text.unlines_cons, List.flatMap_map, margin, ← hselect]
  simp [explainSelect]

theorem toList_explainHaving {q : Query} (h : ∀ e ∈ q.having, e.Legible) :
    q.explainHaving.toList = Text.unlines q.havingRows := by
  rw [explainHaving, havingRows]
  cases hhaving : q.having with
  | none => rfl
  | some e =>
    have hblock := toList_block (h e hhaving) "  "
    simp [hblock, optionalPiece, Text.unlines_cons, margin]

theorem toList_explainOrderBy {q : Query} (h : ∀ key ∈ q.orderBy, key.expr.Legible) :
    q.explainOrderBy.toList = Text.unlines q.orderByRows := by
  have hkeys := toList_join_map fun key hkey => toList_keyBlock (h key hkey)
  rw [explainOrderBy, orderByRows, keys?]
  cases horderBy : q.orderBy with
  | nil => rfl
  | cons key keys =>
    rw [horderBy] at hkeys
    show ("OrderBy\n" ++ String.join ((key :: keys).map keyBlock)).toList
      = Text.unlines ("OrderBy".toList :: (key :: keys).flatMap keyRows)
    rw [String.toList_append, hkeys, Text.unlines_cons]
    rfl

theorem toList_explainLimit (q : Query) : q.explainLimit.toList = Text.unlines [q.limitRow] := by
  rw [explainLimit, limitRow_eq, Text.unlines_cons]
  cases q.limit <;> simp [Text.unlines, limitWord]

/-- **A drawing is the text of its rows.** -/
theorem toList_explain {q : Query} (h : q.Legible) : q.explain.toList = Text.unlines q.rows := by
  obtain ⟨hselect, hhaving, horderBy⟩ := legible_iff.mp h
  rw [rows, Text.unlines_append, Text.unlines_append, Text.unlines_append,
    ← toList_explainSelect hselect, ← toList_explainHaving hhaving,
    ← toList_explainOrderBy horderBy, ← toList_explainLimit]
  simp [explain]

/-! ## Whole rows -/

theorem whole_selectRows {q : Query} (h : ∀ e ∈ q.select, e.Legible) :
    ∀ row ∈ q.selectRows, Text.Whole row := by
  rw [selectRows, List.forall_mem_cons, List.flatMap_map, List.forall_mem_flatMap]
  exact ⟨⟨by decide, by decide⟩, fun e he => whole_rows_tree (h e he) (by decide)⟩

theorem whole_havingRows {q : Query} (h : ∀ e ∈ q.having, e.Legible) :
    ∀ row ∈ q.havingRows, Text.Whole row :=
  forall_mem_optionalPiece (List.forall_mem_singleton.mpr ⟨by decide, by decide⟩)
    fun e he => whole_rows_tree (h e he) (by decide)

theorem whole_keyRows {key : SortKey} (h : key.expr.Legible) :
    ∀ row ∈ keyRows key, Text.Whole row := by
  rw [keyRows, List.forall_mem_cons]
  refine ⟨?_, whole_rows_tree h (by decide)⟩
  cases key.direction <;> exact ⟨by decide, by decide⟩

theorem whole_orderByRows {q : Query} (h : ∀ key ∈ q.orderBy, key.expr.Legible) :
    ∀ row ∈ q.orderByRows, Text.Whole row := by
  refine forall_mem_optionalPiece (List.forall_mem_singleton.mpr ⟨by decide, by decide⟩)
    fun keys hkeys => ?_
  obtain ⟨rfl, -⟩ := keys?_eq_some hkeys
  exact List.forall_mem_flatMap.mpr fun key hkey => whole_keyRows (h key hkey)

theorem whole_limitRow (q : Query) : Text.Whole q.limitRow := by
  have hne {n : UInt64} {c : Char} (hminus : '-' ≠ c) (hc : c.isDigit = false) :
      c ∉ (limitText n).toList := by
    intro hmem
    rcases mem_limitText hmem with rfl | hdigit
    · exact hminus rfl
    · rw [hc] at hdigit
      cases hdigit
  rw [limitRow_eq]
  cases q.limit with
  | none => exact ⟨by decide, by decide⟩
  | some n =>
    obtain ⟨c, cs, hlimit, -⟩ := exists_limitText_eq_cons n
    have hwhole : Text.Whole (limitText n).toList := by
      refine ⟨hne (by decide) rfl, fun hlast => ?_⟩
      exact hne (by decide) rfl (List.mem_of_getLast? hlast)
    have hdigits : (limitText n).toList ≠ [] := hlimit ▸ List.cons_ne_nil c cs
    exact hwhole.append (by decide) hdigits

/-- **The rows of a legible query are whole.** -/
theorem whole_rows {q : Query} (h : q.Legible) : ∀ row ∈ q.rows, Text.Whole row := by
  obtain ⟨hselect, hhaving, horderBy⟩ := legible_iff.mp h
  rw [rows, List.forall_mem_append, List.forall_mem_append, List.forall_mem_append,
    List.forall_mem_singleton]
  exact ⟨whole_selectRows hselect, whole_havingRows hhaving, whole_orderByRows horderBy,
    q.whole_limitRow⟩

/-! ## Making out a query -/

/-- A row that is not behind a margin is outside of it. -/
theorem outside_cons {front row : List Char} (h : ¬ front <+: row) (rs : List (List Char)) :
    Tree.Outside front (row :: rs) := by
  intro first hfirst
  obtain rfl : row = first := Option.some.inj hfirst
  exact h

theorem outside_optionalPiece {α : Type} {piece : α → List (List Char)} {front row : List Char}
    {rs : List (List Char)} (hrow : ¬ front <+: row) (hrs : Tree.Outside front rs) (o : Option α) :
    Tree.Outside front (optionalPiece [row] piece o ++ rs) := by
  cases o with
  | none => exact hrs
  | some a => exact outside_cons hrow _

/-- All headings are outside of the margin. -/
theorem outside_limitRow (q : Query) : Tree.Outside margin [q.limitRow] :=
  outside_cons (by simp [margin, limitRow_eq]) []

theorem outside_orderByRows (q : Query) :
    Tree.Outside margin (q.orderByRows ++ [q.limitRow]) :=
  outside_optionalPiece (by decide) q.outside_limitRow _

theorem outside_havingRows (q : Query) :
    Tree.Outside margin (q.havingRows ++ (q.orderByRows ++ [q.limitRow])) :=
  outside_optionalPiece (by decide) q.outside_orderByRows _

/-- Limits are told by what stands for them: no number begins with a parenthesis. -/
theorem limitWord_inj {l l' : Option UInt64} (h : limitWord l = limitWord l') : l = l' := by
  have hunset {n : UInt64} : limitText n ≠ "(unset)" := by
    intro heq
    obtain ⟨c, cs, hlimit, hc⟩ := exists_limitText_eq_cons n
    rw [heq] at hlimit
    obtain rfl : '(' = c := (List.cons.inj hlimit).1
    revert hc
    decide
  cases l with
  | none =>
    cases l' with
    | none => rfl
    | some n' => exact absurd h.symm hunset
  | some n =>
    cases l' with
    | none => exact absurd h hunset
    | some n' => exact congrArg some (limitText_inj h)

/-- Limits are told by their row. -/
theorem limitRow_inj {q q' : Query} (h : q.limitRow = q'.limitRow) : q.limit = q'.limit :=
  limitWord_inj (String.toList_injective (List.append_cancel_left h))

/-- Sort keys are told behind their margin. -/
theorem told_keyRows {key key' : SortKey} (hkey : key.expr.Legible) (hkey' : key'.expr.Legible) :
    Told keyRows (Tree.Leaves keyMargin) key key' := by
  intro r s hr hs h
  obtain ⟨e, d⟩ := key
  obtain ⟨e', d'⟩ := key'
  simp only [keyRows, List.cons_append, List.cons.injEq, List.append_cancel_left_eq] at h
  obtain ⟨horder, hrows⟩ := h
  have hdirection : d.text.toList ++ [] = d'.text.toList ++ [] := by simpa using horder
  obtain ⟨rfl, -⟩ := Direction.text_append_inj hdirection
  obtain ⟨htree, hbehind⟩ := Tree.rows_append_inj hr hs hrows
  obtain rfl : e = e' := Expr.tree_inj hkey hkey' htree
  exact ⟨rfl, hbehind⟩

/-- **Sort keys are made out** in front of what is outside of their margin: the row of the next order
    is outside of the margin of what is compared. -/
theorem pieces_keyRows :
    Pieces keyRows (fun _ => True) (Tree.Leaves keyMargin) (Tree.Outside margin) where
  next {key} r _ := by
    refine Tree.Outside.leaves fun row hrow hprefix => ?_
    obtain rfl := Option.some.inj hrow
    revert hprefix
    cases key.direction <;> decide
  last hr := by
    refine Tree.Outside.leaves fun row hrow hprefix => hr row hrow ?_
    exact List.IsPrefix.trans (by decide : margin <+: keyMargin) hprefix
  ne s _ hr := by
    rintro rfl
    exact hr _ rfl (List.prefix_append _ _)

/-- The sort keys and the limit are made out. -/
theorem orderBy_limit_inj {q q' : Query} (hq : ∀ key ∈ q.orderBy, key.expr.Legible)
    (hq' : ∀ key ∈ q'.orderBy, key.expr.Legible)
    (h : q.orderByRows ++ [q.limitRow] = q'.orderByRows ++ [q'.limitRow]) :
    q.orderBy = q'.orderBy ∧ q.limit = q'.limit := by
  have hne (q : Query) (t : List (List Char)) : [q.limitRow] ≠ ["OrderBy".toList] ++ t := by
    simp [limitRow_eq]
  have htold : ∀ keys ∈ q.keys?, ∀ keys' ∈ q'.keys?,
      keys.flatMap keyRows ++ [q.limitRow] = keys'.flatMap keyRows ++ [q'.limitRow] →
      keys = keys' ∧ [q.limitRow] = [q'.limitRow] := by
    intro keys hkeys keys' hkeys' hrows
    obtain ⟨rfl, -⟩ := keys?_eq_some hkeys
    obtain ⟨rfl, -⟩ := keys?_eq_some hkeys'
    exact pieces_keyRows.flatMap_append_inj (fun _ _ => trivial) (fun _ _ => trivial)
      (fun key hkey key' hkey' => told_keyRows (hq key hkey) (hq' key' hkey'))
      q.outside_limitRow q'.outside_limitRow hrows
  obtain ⟨hkeys, hlimit⟩ := optionalPiece_append_inj htold (hne q) (hne q') h
  exact ⟨orderBy_eq_of_keys?_eq hkeys, limitRow_inj (List.singleton_inj.mp hlimit)⟩

/-- The condition, the sort keys and the limit are made out. -/
theorem having_orderBy_limit_inj {q q' : Query} (hq : q.Legible) (hq' : q'.Legible)
    (h : q.havingRows ++ (q.orderByRows ++ [q.limitRow])
      = q'.havingRows ++ (q'.orderByRows ++ [q'.limitRow])) :
    q.having = q'.having ∧ q.orderBy = q'.orderBy ∧ q.limit = q'.limit := by
  obtain ⟨-, hhaving, horderBy⟩ := legible_iff.mp hq
  obtain ⟨-, hhaving', horderBy'⟩ := legible_iff.mp hq'
  have hne (q : Query) (t : List (List Char)) :
      q.orderByRows ++ [q.limitRow] ≠ ["Having".toList] ++ t :=
    optionalPiece_append_ne (by simp) (by simp [limitRow_eq]) t
  have htold : ∀ e ∈ q.having, ∀ e' ∈ q'.having,
      e.tree.rows margin ++ (q.orderByRows ++ [q.limitRow])
        = e'.tree.rows margin ++ (q'.orderByRows ++ [q'.limitRow]) →
      e = e' ∧ q.orderByRows ++ [q.limitRow] = q'.orderByRows ++ [q'.limitRow] := by
    intro e he e' he' hrows
    obtain ⟨htree, hbehind⟩ := Tree.rows_append_inj q.outside_orderByRows.leaves
      q'.outside_orderByRows.leaves hrows
    exact ⟨Expr.tree_inj (hhaving e he) (hhaving' e' he') htree, hbehind⟩
  obtain ⟨hsame, hbehind⟩ := optionalPiece_append_inj htold (hne q) (hne q') h
  exact ⟨hsame, orderBy_limit_inj horderBy horderBy' hbehind⟩

/-- **Queries are told by their rows**, if they are legible. -/
theorem rows_inj {q q' : Query} (hq : q.Legible) (hq' : q'.Legible) (h : q.rows = q'.rows) :
    q = q' := by
  have hstands (es : List Expr) : ∀ t ∈ es.map Expr.tree, Tree.StandsOut t.label :=
    List.forall_mem_map.mpr fun e _ => e.standsOut_label
  obtain ⟨htrees, hbehind⟩ := (Tree.pieces_rows margin).flatMap_append_inj
    (hstands q.select) (hstands q'.select) (fun t _ u _ => Tree.told_rows margin t u)
    q.outside_havingRows q'.outside_havingRows (List.cons.inj h).2
  have hselect : q.select = q'.select := by
    refine eq_of_map_eq (fun e he e' he' htree => ?_) htrees
    exact Expr.tree_inj ((legible_iff.mp hq).1 e he) ((legible_iff.mp hq').1 e' he') htree
  obtain ⟨hhaving, horderBy, hlimit⟩ := having_orderBy_limit_inj hq hq' hbehind
  cases q
  cases q'
  simp_all

/-- **Queries are told by their drawings**, if they are legible. -/
theorem explain_inj {q q' : Query} (hq : q.Legible) (hq' : q'.Legible)
    (h : q.explain = q'.explain) : q = q' := by
  have htext : Text.unlines q.rows = Text.unlines q'.rows := by
    rw [← toList_explain hq, ← toList_explain hq', h]
  exact rows_inj hq hq' (Text.unlines_inj (whole_rows hq) (whole_rows hq') htext)

end Query

/-! ## Changes in a trace -/

namespace Application

/-- **An entry shows a change**: its drawings differ if both of its queries are legible. -/
theorem entry_before_ne_after {a : Application} (hbefore : a.before.Legible)
    (hafter : a.after.Legible) (hne : a.after ≠ a.before) : a.entry.before ≠ a.entry.after :=
  fun h => hne (Query.explain_inj hbefore hafter h).symm

end Application

namespace Substitutes

/-- Approximate aggregations keep an expression legible: their names are single lines, and what is
    appended is a number. -/
theorem legible_substitute_approximate {e : Expr} (h : e.Legible) :
    (approximate.substitute e).value.Legible := by
  have htargets : ∀ t ∈ approximateTargets, '\n' ∉ t.toList := by decide
  refine ⟨fun v hv => ?_, fun x hx => ?_, fun f hf => ?_⟩
  · rw [(approximate.literals_substitute e).mem_iff, List.mem_append, List.mem_map] at hv
    rcases hv with hv | ⟨n, -, rfl⟩
    · exact h.literals v hv
    · exact trivial
  · rw [identifiers_substitute] at hx
    exact h.identifiers x hx
  · rw [operators_substitute, List.mem_map] at hf
    obtain ⟨g, hg, rfl⟩ := hf
    rw [targetOf]
    cases hnew : approximate.lookup g with
    | none => exact h.operators g hg
    | some new => exact htargets _ (target_mem_approximateTargets hnew)

end Substitutes

namespace BuiltinRule

/-- The choice of a rule keeps an expression legible. -/
theorem legible_chooseCount (r : BuiltinRule) {e : Expr} (h : e.Legible) :
    (e.chooseCount r.choice).value.Legible := by
  cases hchoice : e.countedColumn?.bind r.choice with
  | none =>
    rw [Expr.chooseCount_of_none hchoice]
    exact h
  | some t =>
    obtain ⟨c, hc, ht⟩ := Option.bind_eq_some_iff.mp hchoice
    obtain ⟨f, rfl, -⟩ := Expr.countedColumn?_eq_some hc
    have hvalue : (Expr.chooseCount r.choice (.call f [.identifier c])).value
        = .call t [.identifier c] := by
      simp [Expr.chooseCount, hchoice, Expr.rename]
    rw [hvalue, Expr.legible_call]
    refine ⟨?_, (Expr.legible_call.mp h).2⟩
    rcases target_of_choice ht with rfl | rfl
    · exact (by decide : '\n' ∉ FunctionName.segmentPartitionedDistinctCount.toList)
    · exact (by decide : '\n' ∉ FunctionName.distinctCountMV.toList)

/-- **Built-in rules keep a query legible**, as far as their substitutes are approximate
    aggregations. -/
theorem legible_adjust {r : BuiltinRule} (happrox : r.Approximate) {q : Query} (h : q.Legible) :
    (r.adjust q).value.Legible := by
  rcases r.kinds with ⟨ceiling, standard, rfl⟩ | hcount | ⟨s, rfl⟩
  · show ((q.capLimit ceiling standard).value).Legible
    rw [Query.value_capLimit]
    exact h
  · rw [adjust_eq_chooseCounts hcount, Query.value_chooseCounts]
    obtain ⟨hselect, hrest⟩ := Query.legible_iff.mp h
    refine Query.legible_iff.mpr ⟨?_, hrest⟩
    exact List.forall_mem_map.mpr fun e he => r.legible_chooseCount (hselect e he)
  · obtain rfl := happrox s rfl
    show ∀ e ∈ (q.mapRoots fun e => (Substitutes.approximate.substitute e).value).roots, e.Legible
    rw [Query.roots_mapRoots, List.forall_mem_map]
    exact fun e he => Substitutes.legible_substitute_approximate (h e he)

end BuiltinRule

namespace Pipeline

variable {p : Pipeline} {q : Query} {o : Outcome}

/-- The log of a run, or of a single pass. -/
theorem applies_of_run_or_runOnce (h : p.run q = .ok o ∨ p.runOnce q = .ok o) :
    ∃ as, Applies (List.replicate o.passes p.rules).flatten q as o.query ∧
      o.Records p.traced as :=
  h.elim applies_of_run fun honce => (applies_of_runOnce honce).2

/-- **Every entry shows a change** if the rules are those of the library and the query is legible.
    All queries of the run are legible then, and what is called a change is one. -/
theorem before_ne_after_of_builtin {rules : List BuiltinRule}
    (hp : p.rules = rules.map BuiltinRule.toRule) (happrox : ∀ r ∈ rules, r.Approximate)
    (hq : q.Legible) (h : p.run q = .ok o ∨ p.runOnce q = .ok o) :
    ∀ t ∈ o.trace, t.before ≠ t.after := by
  obtain ⟨as, hlog, hrecords⟩ := applies_of_run_or_runOnce h
  have hrules : ∀ rule ∈ (List.replicate o.passes p.rules).flatten,
      ∃ r ∈ rules, rule = r.toRule := by
    intro rule hrule
    obtain ⟨pass, hpass, hmem⟩ := List.mem_flatten.mp hrule
    rw [List.eq_of_mem_replicate hpass, hp] at hmem
    obtain ⟨r, hr, rfl⟩ := List.mem_map.mp hmem
    exact ⟨r, hr, rfl⟩
  have hlegible := hlog.inv (P := Query.Legible) (fun rule hrule q a hq ha => by
    obtain ⟨r, hr, rfl⟩ := hrules rule hrule
    obtain rfl : r.adjust q = a := Except.ok.inj ha
    exact BuiltinRule.legible_adjust (happrox r hr) hq) hq
  intro t ht
  rw [hrecords.trace] at ht
  split at ht
  · obtain ⟨a, ha, rfl⟩ := List.mem_map.mp ht
    obtain ⟨hmem, hchanged⟩ := List.mem_filter.mp ha
    obtain ⟨hbefore, hafter⟩ := hlegible a hmem
    obtain ⟨hrule, happly⟩ := hlog.apply_eq_ok a hmem
    obtain ⟨r, -, hr⟩ := hrules a.rule hrule
    rw [hr] at happly
    have hresult : r.adjust a.before = a.result := Except.ok.inj happly
    have hexact := r.exact_adjust a.before
    rw [hresult] at hexact
    exact a.entry_before_ne_after hbefore hafter (hexact.mp hchanged)
  · exact absurd ht List.not_mem_nil

end Pipeline

/-! ## The result -/

/-- **Drawings tell queries, and traces show changes.**

    * Legible queries with the same drawing are the same. A query is legible if it has no
      floating-point numbers, and no function, column or text of several lines.
    * The entries of a trace are those of the changes in the log of the passes, and an entry of a
      rule that made another query of a legible one shows different drawings, if the other query is
      legible too.
    * Under the policies of the library, every entry of a trace shows different drawings if the
      query that was given is legible. -/
theorem Query.explain_tells :
    (∀ q q' : Query, q.Legible → q'.Legible → (q.explain = q'.explain ↔ q = q')) ∧
    (∀ (p : Pipeline) (q : Query) (o : Outcome), p.traced = true →
      p.run q = .ok o ∨ p.runOnce q = .ok o →
      ∃ as, Pipeline.Applies (List.replicate o.passes p.rules).flatten q as o.query ∧
        o.trace = (Application.changes as).map Application.entry ∧
        ∀ a ∈ Application.changes as, a.before.Legible → a.after.Legible → a.after ≠ a.before →
          a.entry.before ≠ a.entry.after) ∧
    (∀ (policy : Policy) (table : Table) (q : Query) (o : Outcome), q.Legible →
      let p := (Pipeline.forTable policy table).withTrace true
      p.run q = .ok o ∨ p.runOnce q = .ok o → ∀ t ∈ o.trace, t.before ≠ t.after) := by
  refine ⟨fun q q' hq hq' => ⟨explain_inj hq hq', congrArg explain⟩, fun p q o htraced h => ?_,
    fun policy table q o hq h => ?_⟩
  · obtain ⟨as, hlog, hrecords⟩ := Pipeline.applies_of_run_or_runOnce h
    have htrace := hrecords.trace
    rw [htraced, if_pos rfl] at htrace
    exact ⟨as, hlog, htrace,
      fun a _ hbefore hafter hne => a.entry_before_ne_after hbefore hafter hne⟩
  · exact Pipeline.before_ne_after_of_builtin rfl
      (Pipeline.approximate_of_mem_rulesForTable policy table) hq h

/-- Two queries whose names look like parts of a drawing, and a limit that was put in place. -/
theorem Query.explain_tells_lookalike :
    let column : Expr := .identifier "├─ Literal(1)"
    let q : Query := { select := [.call "Having" [column], .literal (.string "  ASC")] }
    let q' : Query := { select := [.call "Having" [column, .literal (.string "  ASC")]] }
    let p : Pipeline := (Pipeline.forTable {} {}).withTrace true
    let o : Outcome :=
      { query := { q with limit := some 10 }, passes := 2, applied := 1
        trace := [{ rule := "LimitClamp", before := q.explain
                    after := { q with limit := some 10 : Query }.explain }] }
    (q.Legible ∧ q'.Legible ∧ q.explain ≠ q'.explain) ∧
    (p.traced = true ∧ p.run q = .ok o ∧
      ∃ as, o.trace = (Application.changes as).map Application.entry) ∧
    ∀ t ∈ o.trace, t.before ≠ t.after := by
  intro column q q' p o
  have hq : q.Legible := by simp only [q, column]; decide +kernel
  have hq' : q'.Legible := by simp only [q', column]; decide +kernel
  have hne : q ≠ q' := by simp only [q, q', column]; decide +kernel
  have hrun : p.run q = .ok o := by
    simp only [p, q, o, column]
    decide +kernel
  obtain ⟨hinj, htrace, hbuiltin⟩ := Query.explain_tells
  obtain ⟨as, -, has, -⟩ := htrace p q o rfl (.inl hrun)
  exact ⟨⟨hq, hq', fun h => hne ((hinj q q' hq hq').mp h)⟩, ⟨rfl, hrun, as, has⟩,
    hbuiltin {} {} q o hq (.inl hrun)⟩

end QueryTuning
