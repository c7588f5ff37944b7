import QueryTuning.Proofs.Expr.Place
import QueryTuning.Proofs.Query.Text

/-!
# Texts in a query stay between their quote marks

A text literal ends at the first quote mark that stands alone. So it has to be shown that no other
quote mark comes right behind it, wherever in a query it stands: behind an operand comes a comma or
a parenthesis, and behind a root a comma, a blank, or the end.

* `Query.Place` : a root of a query, and a path into it.
* `Query.hasPlace_text_put` : a place in a query is a place in its spelling.
* `Apart`, `Frame` : what stands around a place.
* `text_literal_closed` : a text literal is read off at its place, and nothing else is.
-/

namespace QueryTuning

/-- Puts an expression in the place that a path into the expression of a sort key leads to. -/
def SortKey.put (path : List Nat) (key : SortKey) (d : Expr) : SortKey :=
  { key with expr := key.expr.put path d }

/-- A path into a sort key leads to a place in its spelling. -/
theorem SortKey.hasPlace_text_put {key : SortKey} {d : Expr} {path : List Nat}
    (h : key.expr.at? path = some d) : HasPlace fun c => (key.put path c).text.toList := by
  have hclose : Closes (' ' :: key.direction.text.toList) := closes_cons (by decide) _
  refine ((Expr.hasPlace_text_put h).append [] hclose).of_eq fun c => ?_
  simp [SortKey.put, SortKey.text]

namespace Query

/-! ## Places in a query -/

/-- A root of a query. -/
inductive Root where
  /-- An expression that is selected. -/
  | select (i : Nat)
  /-- The condition. -/
  | having
  /-- The expression of a sort key. -/
  | orderBy (i : Nat)
deriving DecidableEq, Repr

/-- The expression at a root. -/
def root? (q : Query) : Root → Option Expr
  | .select i => q.select[i]?
  | .having => q.having
  | .orderBy i => q.orderBy[i]?.map SortKey.expr

/-- Changes the expression at a root. -/
def modifyRoot (f : Expr → Expr) (q : Query) : Root → Query
  | .select i => { q with select := q.select.modify i f }
  | .having => { q with having := q.having.map f }
  | .orderBy i =>
    { q with orderBy := q.orderBy.modify i fun key => { key with expr := f key.expr } }

/-- A place in a query. -/
structure Place where
  /-- The root that the place is in. -/
  root : Root
  /-- The path from the root to the place. -/
  path : List Nat
deriving DecidableEq, Repr

/-- The expression that stands in a place. -/
def at? (q : Query) (place : Place) : Option Expr :=
  (q.root? place.root).bind (Expr.at? place.path)

/-- Puts an expression in a place. -/
def put (q : Query) (place : Place) (d : Expr) : Query :=
  q.modifyRoot (fun e => e.put place.path d) place.root

/-- What is in a place already may be put there. -/
theorem put_self {q : Query} {place : Place} {d : Expr} (h : q.at? place = some d) :
    q.put place d = q := by
  obtain ⟨root, path⟩ := place
  obtain ⟨e, he, hd⟩ := Option.bind_eq_some_iff.mp h
  cases root with
  | select i =>
    obtain ⟨hi, rfl⟩ := List.getElem?_eq_some_iff.mp he
    rw [put, modifyRoot, Expr.modify_eq_set he, Expr.put_self hd, List.set_getElem_self]
  | having =>
    rw [put, modifyRoot, show q.having = some e from he, Option.map_some, Expr.put_self hd, ← he]
    rfl
  | orderBy i =>
    obtain ⟨key, hkey, rfl⟩ := Option.map_eq_some_iff.mp he
    obtain ⟨hi, rfl⟩ := List.getElem?_eq_some_iff.mp hkey
    rw [put, modifyRoot, Expr.modify_eq_set hkey, Expr.put_self hd, List.set_getElem_self]

/-- **A place in a query is a place in its spelling.** Behind a root come the roots of the same
    clause, and then the clauses behind it. -/
theorem hasPlace_text_put {q : Query} {place : Place} {d : Expr} (h : q.at? place = some d) :
    HasPlace fun c => (q.put place c).text.toList := by
  obtain ⟨root, path⟩ := place
  obtain ⟨e, he, hd⟩ := Option.bind_eq_some_iff.mp h
  have hplace := Expr.hasPlace_text_put hd
  cases root with
  | select i =>
    have hi : i < q.select.length := (List.getElem?_eq_some_iff.mp he).1
    have hclose := q.beginsClause_havingRest.endsList.1
    refine ((hplace.listed hi).append "SELECT ".toList hclose).of_eq fun c => ?_
    rw [toList_text, put, modifyRoot, Expr.modify_eq_set he]
    rfl
  | having =>
    have hhaving : q.having = some e := he
    have hclose := q.beginsClause_orderByRest.endsList.1
    refine (hplace.append ("SELECT ".toList ++ (", ".intercalate (q.select.map Expr.text)).toList
      ++ " HAVING ".toList) hclose).of_eq fun c => ?_
    rw [toList_text, havingRest, put, modifyRoot, hhaving, Option.map_some, optionalPiece]
    simp only [List.append_assoc]
    rfl
  | orderBy i =>
    obtain ⟨key, hkey, rfl⟩ := Option.map_eq_some_iff.mp he
    have hi : i < q.orderBy.length := (List.getElem?_eq_some_iff.mp hkey).1
    have hclose := q.beginsClause_limitRest.endsList.1
    have hkeys := SortKey.hasPlace_text_put hd
    refine ((hkeys.listed hi).append ("SELECT ".toList
      ++ (", ".intercalate (q.select.map Expr.text)).toList
      ++ optionalPiece " HAVING ".toList (fun e => e.text.toList) q.having
      ++ " ORDER BY ".toList) hclose).of_eq fun c => ?_
    have hput : q.put ⟨.orderBy i, path⟩ c
        = { q with orderBy := q.orderBy.set i (key.put path c) } := by
      rw [put, modifyRoot, Expr.modify_eq_set hkey]
      rfl
    -- There are as many sort keys as before, so they still have their words in front of them.
    have hne : q.orderBy.set i (key.put path c) ≠ [] := by
      intro hnil
      have hlength := congrArg List.length hnil
      rw [List.length_set, List.length_nil] at hlength
      omega
    rw [hput, toList_text, havingRest, orderByRest, keys?, if_neg hne, optionalPiece]
    simp only [List.append_assoc]
    rfl

end Query

/-! ## Text literals -/

/-- A text is **apart** from a text literal in front of it if it does not begin with a quote
    mark. -/
def Apart (r : String) : Prop := r.toList.head? ≠ some '\x27'

instance : DecidablePred Apart := fun r =>
  inferInstanceAs (Decidable (r.toList.head? ≠ some '\x27'))

/-- What stands around a place for an expression in a text. -/
structure Frame (spell : Expr → String) (before after : String) : Prop where
  /-- Whatever is put there, the same stands in front of it, and the same stands behind it. -/
  spell_eq : ∀ d, spell d = before ++ d.text ++ after
  /-- What stands behind it does not begin with a quote mark. -/
  apart : Apart after

/-- What closes an expression is apart from it. -/
theorem Closes.apart {r : List Char} (h : Closes r) : Apart (String.ofList r) := by
  rw [Apart, String.toList_ofList]
  exact h.head?_ne_quoteMark

/-- A place has a frame around it. -/
theorem HasPlace.exists_frame {spell : Expr → String} (h : HasPlace fun d => (spell d).toList) :
    ∃ before after, Frame spell before after := by
  obtain ⟨before, after, hafter, hspell⟩ := h
  refine ⟨String.ofList before, String.ofList after, fun d => ?_, hafter.apart⟩
  have hlist : (spell d).toList = before ++ d.text.toList ++ after := hspell d
  apply String.toList_injective
  rw [hlist]
  simp

/-- A text literal is told from what follows it. -/
theorem Literal.text_string_append_inj {s t r u : String} (hr : Apart r) (hu : Apart u)
    (h : (Literal.string s).text ++ r = (Literal.string t).text ++ u) : s = t ∧ r = u := by
  have hlist := congrArg String.toList h
  rw [String.toList_append, String.toList_append] at hlist
  obtain ⟨hsame, hrest⟩ := Literal.quoted_append_inj hr hu hlist
  exact ⟨hsame, String.toList_injective hrest⟩

/-- **A text literal cannot break out of its quote marks.**

    * A text between quote marks is told, together with what follows it, if that does not begin with
      a quote mark.
    * What follows an operand or a root never begins with a quote mark: not in an expression, not in
      a sort key and not in a query, however deep the operand is. Nor does it depend on what the
      operand or the root is, and the same is true of what stands in front of it.
    * So whoever reads a text literal at its place in a spelling finds the text that was put there,
      and behind it what stands behind the place. -/
theorem text_literal_closed :
    (∀ s t r u : String, Apart r → Apart u →
      (Literal.string s).text ++ r = (Literal.string t).text ++ u → s = t ∧ r = u) ∧
    (∀ (e d : Expr) (path : List Nat), e.at? path = some d →
      ∃ before after, Frame (fun c => (e.put path c).text) before after ∧
        e.text = before ++ d.text ++ after) ∧
    (∀ (key : SortKey) (d : Expr) (path : List Nat), key.expr.at? path = some d →
      ∃ before after, Frame (fun c => (key.put path c).text) before after ∧
        key.text = before ++ d.text ++ after) ∧
    (∀ (q : Query) (d : Expr) (place : Query.Place), q.at? place = some d →
      ∃ before after, Frame (fun c => (q.put place c).text) before after ∧
        q.text = before ++ d.text ++ after) ∧
    (∀ (spell : Expr → String) (before after s t u : String), Frame spell before after → Apart u →
      spell (.literal (.string s)) = before ++ (Literal.string t).text ++ u →
      s = t ∧ after = u) := by
  refine ⟨fun s t r u => Literal.text_string_append_inj, ?_, ?_, ?_, ?_⟩
  · intro e d path h
    obtain ⟨before, after, hframe⟩ := (Expr.hasPlace_text_put h).exists_frame
    refine ⟨before, after, hframe, ?_⟩
    rw [← hframe.spell_eq d, Expr.put_self h]
  · intro key d path h
    obtain ⟨before, after, hframe⟩ := (SortKey.hasPlace_text_put h).exists_frame
    refine ⟨before, after, hframe, ?_⟩
    rw [← hframe.spell_eq d, SortKey.put, Expr.put_self h]
  · intro q d place h
    obtain ⟨before, after, hframe⟩ := (Query.hasPlace_text_put h).exists_frame
    refine ⟨before, after, hframe, ?_⟩
    rw [← hframe.spell_eq d, Query.put_self h]
  · intro spell before after s t u hframe hu h
    rw [hframe.spell_eq, String.append_assoc, String.append_assoc, String.append_right_inj] at h
    exact Literal.text_string_append_inj hframe.apart hu h

/-- A text that looks like the end of an operand and a limit, as an operand, as a sort key and in a
    condition. -/
theorem text_literal_closed_lookalike :
    let s := "', x) LIMIT 0 '"
    let t := String.ofList ('\x27' :: ", x) LIMIT 0 '".toList)
    let v : Expr := .literal (.string s)
    let e : Expr := .call "f" [.identifier "x", .call "g" [v]]
    let key : SortKey := { expr := v }
    let q : Query := { select := [v], having := some e, orderBy := [key], limit := some 10 }
    (Apart ", ''" ∧ (Literal.string s).text ++ ", ''" = (Literal.string t).text ++ ", ''" ∧
      s = t) ∧
    (e.at? [1, 0] = some v ∧ ∃ before after,
      Frame (fun c => (e.put [1, 0] c).text) before after ∧ e.text = before ++ v.text ++ after) ∧
    (key.expr.at? [] = some v ∧ ∃ before after,
      Frame (fun c => (key.put [] c).text) before after ∧ key.text = before ++ v.text ++ after) ∧
    (q.at? ⟨.having, [1, 0]⟩ = some v ∧ ∃ before after,
      Frame (fun c => (q.put ⟨.having, [1, 0]⟩ c).text) before after ∧
        q.text = before ++ v.text ++ after) ∧
    (Frame Expr.text "" "" ∧ v.text = "" ++ (Literal.string t).text ++ "" ∧ s = t) := by
  intro s t v e key q
  obtain ⟨hclosed, hoperand, hkey, hquery, hread⟩ := text_literal_closed
  have hsame : s = t := by simp only [s, t]; decide +kernel
  have happart : Apart ", ''" := by decide
  have htext : (Literal.string s).text ++ ", ''" = (Literal.string t).text ++ ", ''" := by
    rw [hsame]
  have hframe : Frame Expr.text "" "" := ⟨fun d => by simp, by decide⟩
  have halone : v.text = "" ++ (Literal.string t).text ++ "" := by
    rw [← hsame]
    simp [v]
  have hinner : e.at? [1, 0] = some v := rfl
  have hinquery : q.at? ⟨.having, [1, 0]⟩ = some v := rfl
  exact ⟨⟨happart, htext, (hclosed s t _ _ happart happart htext).1⟩,
    ⟨hinner, hoperand e v _ hinner⟩, ⟨rfl, hkey key v _ rfl⟩, ⟨hinquery, hquery q v _ hinquery⟩,
    hframe, halone, (hread _ _ _ s t _ hframe (by decide) halone).1⟩

end QueryTuning
