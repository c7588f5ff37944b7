import QueryTuning.Proofs.Expr.Text
import QueryTuning.Query.Text

/-!
# Spellings of queries

A query is spelled clause by clause. A clause that is there begins with a blank and a letter of its
own, so what follows an expression never goes on with a comma, and the clauses are told one after
another. With names that are words, the spelling tells the query.

* `Query.Plain` : queries whose names are words.
* `SortKey.told_text` : a sort key is told in front of what closes it.
* `Query.having_orderBy_limit_text_inj` : what stands behind the select list is made out.
* `Query.text_inj` : plain queries are told by their spelling.
-/

namespace QueryTuning

/-! ## Limits and orders -/

/-- Limits are told by their digits. -/
theorem limitText_inj {m n : UInt64} (h : limitText m = limitText n) : m = n := by
  have hbounds (k : UInt64) :
      -0x8000000000000000 ≤ (k.toNat : Int) ∧ (k.toNat : Int) < 0x10000000000000000 := by
    have hlt := k.toNat_lt
    omega
  have hsame : (m.toNat : Int) = n.toNat := Numeral.text_ofInt_inj (hbounds m) (hbounds n) h
  exact UInt64.toNat_inj.mp (Int.ofNat.inj hsame)

/-- The words for the orders are told from each other in front of anything. -/
theorem Direction.text_append_inj {d d' : Direction} {r s : List Char}
    (h : d.text.toList ++ r = d'.text.toList ++ s) : d = d' ∧ r = s := by
  cases d <;> cases d' <;> simp_all [Direction.text]

/-- **A sort key is told** in front of what closes it. -/
theorem SortKey.told_text {key key' : SortKey} (hkey : key.expr.Plain) (hkey' : key'.expr.Plain) :
    Told (fun key => key.text.toList) Closes key key' := by
  intro r s _ _ h
  obtain ⟨e, d⟩ := key
  obtain ⟨e', d'⟩ := key'
  have hblank (t : List Char) : Closes (' ' :: t) := closes_cons (by decide) t
  simp only [SortKey.text, String.toList_append, List.append_assoc] at h
  obtain ⟨rfl, hrest⟩ := Expr.told_text hkey hkey' _ _ (hblank _) (hblank _) h
  obtain ⟨rfl, hsame⟩ := Direction.text_append_inj (List.cons.inj hrest).2
  exact ⟨rfl, hsame⟩

namespace Query

/-- A query is **plain** if all its expressions are. -/
def Plain (q : Query) : Prop := ∀ e ∈ q.roots, e.Plain

instance : DecidablePred Plain := fun q => inferInstanceAs (Decidable (∀ e ∈ q.roots, e.Plain))

theorem plain_iff {q : Query} :
    q.Plain ↔ (∀ e ∈ q.select, e.Plain) ∧ (∀ e ∈ q.having, e.Plain) ∧
      ∀ key ∈ q.orderBy, key.expr.Plain := by
  simp [Plain, roots, or_imp, forall_and]

/-! ## Clauses -/

/-- The sort keys, if there are any. -/
def keys? (q : Query) : Option (List SortKey) := if q.orderBy = [] then none else some q.orderBy

theorem keys?_eq_some {q : Query} {keys : List SortKey} (h : q.keys? = some keys) :
    q.orderBy = keys ∧ keys ≠ [] := by
  rw [keys?] at h
  split at h
  · cases h
  · cases h
    exact ⟨rfl, ‹_›⟩

/-- Queries with the same sort keys, if there are any, have the same sort keys. -/
theorem orderBy_eq_of_keys?_eq {q q' : Query} (h : q.keys? = q'.keys?) :
    q.orderBy = q'.orderBy := by
  rw [keys?, keys?] at h
  split at h <;> split at h <;> simp_all

/-- The limit behind its word, if there is one. -/
def limitRest (q : Query) : List Char :=
  optionalPiece " LIMIT ".toList (fun n => (limitText n).toList) q.limit

/-- The sort keys behind their words, and the limit. -/
def orderByRest (q : Query) : List Char :=
  optionalPiece " ORDER BY ".toList (fun keys => (", ".intercalate (keys.map SortKey.text)).toList)
    q.keys? ++ q.limitRest

/-- The condition behind its word, the sort keys and the limit. -/
def havingRest (q : Query) : List Char :=
  optionalPiece " HAVING ".toList (fun e => e.text.toList) q.having ++ q.orderByRest

/-- **The spelling of a query**, clause by clause. -/
theorem toList_text (q : Query) :
    q.text.toList
      = "SELECT ".toList
        ++ ((", ".intercalate (q.select.map Expr.text)).toList ++ q.havingRest) := by
  have hlimit : q.limitClause.toList = q.limitRest := by
    rw [limitClause, limitRest]
    cases q.limit <;> simp [optionalPiece]
  have horderBy : q.orderByText.toList ++ q.limitRest = q.orderByRest := by
    rw [orderByText, orderByRest, keys?]
    cases q.orderBy <;> simp [optionalPiece]
  have hhaving : q.havingText.toList ++ q.orderByRest = q.havingRest := by
    rw [havingText, havingRest]
    cases q.having <;> simp [optionalPiece]
  rw [← hhaving, ← horderBy, ← hlimit]
  simp [text]

/-! ## Making out a query -/

/-- Nothing but a blank begins a clause. -/
def BeginsClause (r : List Char) : Prop := ∀ c ∈ r.head?, c = ' '

theorem BeginsClause.endsList {r : List Char} (h : BeginsClause r) : EndsList r := by
  refine ⟨fun c hc => ?_, fun hc => absurd (h ',' hc) (by decide)⟩
  rw [h c hc]
  decide

theorem BeginsClause.append {heading r : List Char} {α : Type} {piece : α → List Char}
    (hheading : heading.head? = some ' ') (hr : BeginsClause r) (o : Option α) :
    BeginsClause (optionalPiece heading piece o ++ r) := by
  cases o with
  | none => exact hr
  | some a =>
    intro c hc
    rw [optionalPiece, List.append_assoc, List.head?_append, hheading] at hc
    exact (Option.some.inj hc).symm

theorem beginsClause_limitRest (q : Query) : BeginsClause q.limitRest := by
  have hnone : BeginsClause [] := fun c hc => by cases hc
  rw [limitRest, ← List.append_nil (optionalPiece _ _ _)]
  exact hnone.append rfl _

theorem beginsClause_orderByRest (q : Query) : BeginsClause q.orderByRest :=
  q.beginsClause_limitRest.append rfl _

theorem beginsClause_havingRest (q : Query) : BeginsClause q.havingRest :=
  q.beginsClause_orderByRest.append rfl _

theorem limitRest_inj {q q' : Query} (h : q.limitRest = q'.limitRest) : q.limit = q'.limit := by
  rw [limitRest, limitRest, ← List.append_nil (optionalPiece _ _ q.limit),
    ← List.append_nil (optionalPiece _ _ q'.limit)] at h
  refine (optionalPiece_append_inj (fun m _ n _ htext => ⟨limitText_inj ?_, rfl⟩) ?_ ?_ h).1
  · exact String.toList_injective (by simpa using htext)
  · simp
  · simp

/-- The sort keys and the limit are made out. -/
theorem orderByRest_inj {q q' : Query} (hq : ∀ key ∈ q.orderBy, key.expr.Plain)
    (hq' : ∀ key ∈ q'.orderBy, key.expr.Plain) (h : q.orderByRest = q'.orderByRest) :
    q.orderBy = q'.orderBy ∧ q.limit = q'.limit := by
  have hne (q : Query) (t : List Char) : q.limitRest ≠ " ORDER BY ".toList ++ t := by
    rw [limitRest, ← List.append_nil (optionalPiece _ _ _)]
    exact optionalPiece_append_ne (by simp) (by simp) t
  have htold : ∀ keys ∈ q.keys?, ∀ keys' ∈ q'.keys?,
      (", ".intercalate (keys.map SortKey.text)).toList ++ q.limitRest
        = (", ".intercalate (keys'.map SortKey.text)).toList ++ q'.limitRest →
      keys = keys' ∧ q.limitRest = q'.limitRest := by
    intro keys hkeys keys' hkeys' htext
    obtain ⟨rfl, hsome⟩ := keys?_eq_some hkeys
    obtain ⟨rfl, hsome'⟩ := keys?_eq_some hkeys'
    exact listed_append_inj
      (fun key hkey key' hkey' => SortKey.told_text (hq key hkey) (hq' key' hkey')) hsome hsome'
      q.beginsClause_limitRest.endsList q'.beginsClause_limitRest.endsList htext
  obtain ⟨hkeys, hlimit⟩ := optionalPiece_append_inj htold (hne q) (hne q') h
  exact ⟨orderBy_eq_of_keys?_eq hkeys, limitRest_inj hlimit⟩

/-- The condition, the sort keys and the limit are made out. -/
theorem havingRest_inj {q q' : Query} (hq : q.Plain) (hq' : q'.Plain)
    (h : q.havingRest = q'.havingRest) :
    q.having = q'.having ∧ q.orderBy = q'.orderBy ∧ q.limit = q'.limit := by
  obtain ⟨-, hhaving, horderBy⟩ := plain_iff.mp hq
  obtain ⟨-, hhaving', horderBy'⟩ := plain_iff.mp hq'
  have hne (q : Query) (t : List Char) : q.orderByRest ≠ " HAVING ".toList ++ t := by
    refine optionalPiece_append_ne (by simp) (fun t => ?_) t
    rw [limitRest, ← List.append_nil (optionalPiece _ _ _)]
    exact optionalPiece_append_ne (by simp) (by simp) t
  obtain ⟨hsame, hrest⟩ := optionalPiece_append_inj
    (fun e he e' he' => Expr.told_text (hhaving e he) (hhaving' e' he') _ _
      q.beginsClause_orderByRest.endsList.1 q'.beginsClause_orderByRest.endsList.1)
    (hne q) (hne q') h
  exact ⟨hsame, orderByRest_inj horderBy horderBy' hrest⟩

/-- Plain queries that select something are the same if they are spelled alike. -/
theorem text_inj {q q' : Query} (hq : q.Plain) (hq' : q'.Plain) (hselect : q.select ≠ [])
    (hselect' : q'.select ≠ []) (h : q.text = q'.text) : q = q' := by
  have htext := congrArg String.toList h
  rw [toList_text, toList_text, List.append_cancel_left_eq] at htext
  obtain ⟨hplain, -⟩ := plain_iff.mp hq
  obtain ⟨hplain', -⟩ := plain_iff.mp hq'
  obtain ⟨hsame, hrest⟩ := listed_append_inj
    (fun e he e' he' => Expr.told_text (hplain e he) (hplain' e' he')) hselect hselect'
    q.beginsClause_havingRest.endsList q'.beginsClause_havingRest.endsList htext
  obtain ⟨hhaving, horderBy, hlimit⟩ := havingRest_inj hq hq' hrest
  cases q
  cases q'
  simp_all

/-- **Queries are told by their spelling.** Two queries that select something, without
    floating-point numbers, whose functions are words and whose columns have plain names, are
    spelled alike only if all their clauses are the same: the nesting and the order of operands, the
    constants, the directions and the limit. -/
theorem text_eq_text_iff (q q' : Query) (hq : q.Plain) (hq' : q'.Plain) (hselect : q.select ≠ [])
    (hselect' : q'.select ≠ []) : q.text = q'.text ↔ q = q' :=
  ⟨text_inj hq hq' hselect hselect', fun h => congrArg text h⟩

/-- A text that looks like the clauses of another query, and calls that differ in their nesting. -/
theorem text_eq_text_iff_lookalike :
    let f (es : List Expr) : Expr := .call "f" es
    let q : Query :=
      { select := [f [f [.identifier "x"], .literal (.string "') HAVING f(")]], limit := some 10 }
    let q' : Query :=
      { select := [f [f [.identifier "x", .literal (.string "')")]]], having := some (f [])
        limit := some 10 }
    q.Plain ∧ q'.Plain ∧ q.select ≠ [] ∧ q'.select ≠ [] ∧ q.text ≠ q'.text := by
  intro f q q'
  have hq : q.Plain := by simp only [q, f]; decide +kernel
  have hq' : q'.Plain := by simp only [q', f]; decide +kernel
  have hne : q ≠ q' := by simp only [q, q', f]; decide +kernel
  have hselect : q.select ≠ [] := List.cons_ne_nil _ _
  have hselect' : q'.select ≠ [] := List.cons_ne_nil _ _
  have hiff := text_eq_text_iff q q' hq hq' hselect hselect'
  exact ⟨hq, hq', hselect, hselect', fun h => hne (hiff.mp h)⟩

end Query

end QueryTuning
