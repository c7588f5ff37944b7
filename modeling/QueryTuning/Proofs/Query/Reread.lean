import QueryTuning.Proofs.Json.Yields
import QueryTuning.Proofs.Query.RoundTrip

/-!
# Texts that are read and written again

A query may be given in many forms, and only one of them is written. Writing a query again settles
its text: the text that is written is read as the same query, so it is written no other way the next
time. What may stand in the way of this is the depth of the brackets, because a form that is read
may have fewer of them than the one that is written. It turns out that it cannot have fewer where it
counts: whatever the form, a reader takes as much room as the brackets that are written.

* `Literal.yields_brackets`, `Expr.yields_nest`, `Query.yields_nest` : what is read with some room
  is written with no more brackets than that.
* `Json.respell` : the text that is written for what a text is read as.
* `ofText_respell` : it is read as the same, and written as it is.
-/

namespace QueryTuning

open Json (Yields)
open Json.Yields (Keeps keeps_of keeps_of_unchanged)

/-! ## Literals -/

/-- A literal that is written with a bracket is read from a value with a bracket. The missing value
    may be read from one as well, but it is written without. -/
theorem Literal.yields_brackets (room : Nat) :
    Yields reader room fun v => (if v = null then 0 else 1) ≤ room := by
  have hheld {α : Type} (name : String) (make : α → Literal) (read : Json.Reader α) :
      Yields.Holds room (fun v => (if v = null then 0 else 1) ≤ room)
        (Json.Variant.holding name make read).content := by
    intro r hr d v _
    show (if v = null then 0 else 1) ≤ room
    split <;> omega
  refine Yields.variant fun v hv => ?_
  simp only [variants, List.mem_cons, List.not_mem_nil, or_false] at hv
  rcases hv with rfl | rfl | rfl | rfl | rfl
  · exact Nat.zero_le room
  · exact hheld _ _ _
  · exact hheld _ _ _
  · exact hheld _ _ _
  · exact hheld _ _ _

/-! ## Expressions -/

namespace Expr

variable {operand : Json.Reader Expr} {room : Nat}

/-- The operands of a call stand inside of two brackets of its record. -/
theorem yields_operands (h : ∀ r, room = r + 2 → Yields operand r fun e => e.nest ≤ r) :
    Yields (callFormat operand).reader room fun c =>
      2 ≤ room ∧ ∀ e ∈ c.2, e.nest + 2 ≤ room := by
  refine Yields.record
    (fun r draft => ∀ es ∈ draft.operands, 1 ≤ r ∧ ∀ e ∈ es, e.nest + 1 ≤ r) ?_ ?_ ?_
  · intro r es hes
    cases hes
  · intro r hr field hfield
    simp only [callFormat, List.mem_cons, List.not_mem_nil, or_false] at hfield
    rcases hfield with rfl | rfl
    · exact keeps_of_unchanged fun draft f hdraft => hdraft
    · have hlist : Yields (Json.Reader.list operand) r fun es =>
          1 ≤ r ∧ ∀ e ∈ es, e.nest + 1 ≤ r := by
        refine Yields.list fun k hk => (h k (by omega)).imp fun e he => ?_
        omega
      refine keeps_of hlist fun draft es hes _ es' hes' => ?_
      obtain rfl : es = es' := Option.mem_some.mp hes'
      exact hes
  · intro r hr draft c hdraft hc
    obtain ⟨f, -, hc⟩ := exists_of_bind_eq_ok hc
    obtain ⟨es, hes, hc⟩ := exists_of_bind_eq_ok hc
    obtain rfl := Except.ok.inj hc
    obtain ⟨hbracket, hnest⟩ := hdraft es (Json.required_eq_ok_iff.mp hes)
    refine ⟨by omega, fun e he => ?_⟩
    have hle := hnest e he
    omega

/-- An expression stands inside of the bracket of its form. -/
theorem yields_form (h : ∀ r, room = r + 3 → Yields operand r fun e => e.nest ≤ r) :
    Yields (Json.Variant.reader (variants operand)) room fun e => e.nest ≤ room := by
  refine Yields.variant fun v hv => ?_
  simp only [variants, List.mem_cons, List.not_mem_nil, or_false] at hv
  rcases hv with rfl | rfl | rfl
  · intro r hr
    refine ((Literal.yields_brackets r).imp fun v hv => ?_).map
    show (if v = .null then 1 else 2) ≤ room
    split at hv <;> split <;> omega
  · intro r hr
    refine Yields.map fun d x _ => ?_
    show 1 ≤ room
    omega
  · intro r hr
    refine ((yields_operands fun k hk => h k (by omega)).imp fun c hc => ?_).map
    obtain ⟨hbrackets, hoperands⟩ := hc
    -- Three brackets stand around an operand: those of the form, of the call and of the list.
    obtain ⟨k, rfl⟩ : ∃ k, room = 3 + k := ⟨room - 3, by omega⟩
    refine nest_call_le_iff.mpr fun e he => ?_
    have hle := hoperands e he
    omega

/-- **An expression is written with no more brackets than it was read with room for.** The induction
    is on the room, like the recursion of the reader. -/
theorem yields_nest (room : Nat) : Yields reader room fun e => e.nest ≤ room := by
  induction room using Nat.strongRecOn with
  | ind room ih =>
    match room, ih with
    | 0, _ => exact yields_form fun r hr => by omega
    | 1, _ => exact yields_form fun r hr => by omega
    | 2, _ => exact yields_form fun r hr => by omega
    | room + 3, ih =>
      refine yields_form fun r hr d e he => ?_
      obtain rfl : room = r := by omega
      exact ih room (by omega) d e he

end Expr

/-! ## Queries -/

/-- The expression of a sort key stands inside of its bracket. -/
theorem SortKey.yields_nest (room : Nat) :
    Yields reader room fun key => 1 + key.expr.nest ≤ room := by
  refine Yields.record (fun r draft => ∀ e ∈ draft.expr, e.nest ≤ r) ?_ ?_ ?_
  · intro r e he
    cases he
  · intro r hr field hfield
    simp only [format, List.mem_cons, List.not_mem_nil, or_false] at hfield
    rcases hfield with rfl | rfl
    · refine keeps_of (Expr.yields_nest r) fun draft e he _ e' he' => ?_
      obtain rfl : e = e' := Option.mem_some.mp he'
      exact he
    · exact keeps_of_unchanged fun draft o hdraft => hdraft
  · intro r hr draft key hdraft hkey
    obtain ⟨e, he, hkey⟩ := exists_of_bind_eq_ok hkey
    obtain ⟨o, -, hkey⟩ := exists_of_bind_eq_ok hkey
    obtain rfl := Except.ok.inj hkey
    have hle := hdraft e (Json.required_eq_ok_iff.mp he)
    show 1 + e.nest ≤ room
    omega

namespace Query

/-- What is known about the brackets of what a draft has of a query, with some room inside of the
    bracket of the query. -/
structure Draft.Within (room : Nat) (draft : Draft) : Prop where
  /-- What is selected stands inside of one more bracket. -/
  select : ∀ es ∈ draft.select, 1 ≤ room ∧ ∀ e ∈ es, 1 + e.nest ≤ room
  /-- A condition stands inside of no other bracket. -/
  having : ∀ o ∈ draft.having, ∀ e ∈ o, e.nest ≤ room
  /-- What is sorted by stands inside of two more brackets. -/
  orderBy : ∀ keys ∈ draft.orderBy, ∀ key ∈ keys, 2 + key.expr.nest ≤ room

/-- Every clause that is read keeps a draft within its room. -/
theorem Draft.keeps_within (room : Nat) :
    ∀ field ∈ format.fields, Keeps room (Within room) field := by
  intro field hfield
  simp only [format, List.mem_cons, List.not_mem_nil, or_false] at hfield
  rcases hfield with rfl | rfl | rfl | rfl
  · -- The list takes one bracket, and each of its expressions has what is left.
    have hselect : Yields (Json.Reader.list Expr.reader) room fun es =>
        1 ≤ room ∧ ∀ e ∈ es, 1 + e.nest ≤ room := by
      refine Yields.list fun k hk => (Expr.yields_nest k).imp fun e he => ?_
      omega
    refine keeps_of hselect fun draft es hes hdraft => { hdraft with select := fun es' hes' => ?_ }
    obtain rfl : es = es' := Option.mem_some.mp hes'
    exact hes
  · refine keeps_of (Yields.option (Expr.yields_nest room)) fun draft o ho hdraft =>
      { hdraft with having := fun o' ho' => ?_ }
    obtain rfl : o = o' := Option.mem_some.mp ho'
    exact ho
  · -- Here the sort key takes a bracket as well.
    have horderBy : Yields (Json.Reader.list SortKey.reader) room fun keys =>
        1 ≤ room ∧ ∀ key ∈ keys, 2 + key.expr.nest ≤ room := by
      refine Yields.list fun k hk => (SortKey.yields_nest k).imp fun key hkey => ?_
      omega
    refine keeps_of horderBy fun draft keys hkeys hdraft =>
      { hdraft with orderBy := fun keys' hkeys' => ?_ }
    obtain rfl : keys = keys' := Option.mem_some.mp hkeys'
    exact hkeys.2
  · exact keeps_of_unchanged fun draft n hdraft => ⟨hdraft.select, hdraft.having, hdraft.orderBy⟩

/-- **A query is written with no more brackets than it was read with room for.** -/
theorem yields_nest (room : Nat) : Yields reader room fun q => q.nest ≤ room := by
  refine Yields.record Draft.Within ?_ (fun r _ => Draft.keeps_within r) ?_
  · intro r
    constructor <;> intro a ha <;> cases ha
  · intro r hr draft q hdraft hq
    obtain ⟨es, hes, hq⟩ := exists_of_bind_eq_ok hq
    obtain ⟨keys, hkeys, hq⟩ := exists_of_bind_eq_ok hq
    obtain rfl := Except.ok.inj hq
    obtain ⟨hbracket, hselect⟩ := hdraft.select es (Json.required_eq_ok_iff.mp hes)
    refine nest_le_iff.mpr ⟨by omega, ?_, ?_, ?_⟩
    · intro e he
      have hle := hselect e he
      omega
    · intro e he
      have hsome : draft.having = some (some e) := Option.join_eq_some_iff.mp he
      have hle := hdraft.having (some e) hsome e rfl
      omega
    · intro key hkey
      have hle := hdraft.orderBy keys (Json.required_eq_ok_iff.mp hkeys) key hkey
      omega

end Query

/-! ## Texts -/

namespace Json

/-- The text that is written for what a text is read as. -/
def respell {α : Type} (read : Reader α) (write : α → Json) (text : String) : Except Error String :=
  (fun a => (write a).text) <$> Reader.ofText read text

end Json

/-- **Texts settle once they are written**, whatever the form is in which they were given.

    * What is written for an expression or a query that was read has no more than 127 open brackets.
      Without floating-point numbers it is read as the same expression or query, and writing that
      gives the same text again.
    * More exactly, what was read with room for some brackets is written with no more than them. -/
theorem ofText_respell :
    (∀ (text : String) (e : Expr), Json.Reader.ofText Expr.reader text = .ok e →
      e.toJson.nesting ≤ 127 ∧
      (e.floatFree = true → Json.Reader.ofText Expr.reader e.toJson.text = .ok e ∧
        Json.respell Expr.reader Expr.toJson e.toJson.text = .ok e.toJson.text)) ∧
    (∀ (text : String) (q : Query), Json.Reader.ofText Query.reader text = .ok q →
      q.toJson.nesting ≤ 127 ∧
      (q.floatFree = true → Json.Reader.ofText Query.reader q.toJson.text = .ok q ∧
        Json.respell Query.reader Query.toJson q.toJson.text = .ok q.toJson.text)) ∧
    ∀ (room : Nat) (d : Json.Doc),
      (∀ e, Expr.reader room d = .ok e → e.toJson.nesting ≤ room) ∧
      ∀ q, Query.reader room d = .ok q → q.toJson.nesting ≤ room := by
  refine ⟨fun text e he => ?_, fun text q hq => ?_, fun room d => ⟨fun e he => ?_, fun q hq => ?_⟩⟩
  · have hnest : e.nest ≤ 127 := Expr.yields_nest _ _ e (Json.Reader.ofText_eq_ok_iff.mp he).1
    rw [e.nesting_toJson]
    refine ⟨hnest, fun hfree => ?_⟩
    have hread : Json.Reader.ofText Expr.reader e.toJson.text = .ok e := by
      rw [Expr.ofText_text hfree, if_pos hnest]
    exact ⟨hread, by rw [Json.respell, hread]; rfl⟩
  · have hnest : q.nest ≤ 127 := Query.yields_nest _ _ q (Json.Reader.ofText_eq_ok_iff.mp hq).1
    rw [q.nesting_toJson]
    refine ⟨hnest, fun hfree => ?_⟩
    have hread : Json.Reader.ofText Query.reader q.toJson.text = .ok q := by
      rw [Query.ofText_text hfree, if_pos hnest]
    exact ⟨hread, by rw [Json.respell, hread]; rfl⟩
  · rw [e.nesting_toJson]
    exact Expr.yields_nest room d e he
  · rw [q.nesting_toJson]
    exact Query.yields_nest room d q hq

/-- An expression with its call as an array and the missing value as an object. -/
def Expr.oddText : String :=
  " \x7b\"\\u0046unction\" : [\"count\", [\x7b\"Literal\": \x7b\"Null\": null\x7d\x7d]]\x7d"

/-- A query with its clauses in another order and one of them left out, with a member that queries
    do not have, with a sort key as an array and with blanks and escapes. -/
def Query.oddText : String :=
  "\x7b\"limit\": null, \"note\": [1e999, \x7b\x7d], \"order_by\": [\n"
    ++ "  [\x7b\"Identifier\": \"\\u0063ity\"\x7d, \x7b\"Descending\": null\x7d]],\n"
    ++ "\t\"select_list\": [" ++ Expr.oddText ++ "]\x7d"

/-- Both are read, and written in another form. -/
theorem ofText_respell_odd :
    let e : Expr := .call "count" [.literal .null]
    let q : Query :=
      { select := [e], orderBy := [{ expr := .identifier "city", direction := .descending }] }
    Json.Reader.ofText Expr.reader Expr.oddText = .ok e ∧
    Json.Reader.ofText Query.reader Query.oddText = .ok q ∧
    e.floatFree = true ∧ q.floatFree = true ∧
    e.toJson.text ≠ Expr.oddText ∧ q.toJson.text ≠ Query.oddText ∧
    Json.Reader.ofText Expr.reader e.toJson.text = .ok e ∧
    Json.Reader.ofText Query.reader q.toJson.text = .ok q := by
  intro e q
  have he : Json.Reader.ofText Expr.reader Expr.oddText = .ok e :=
    eq_ok_of_toOption_eq_some (by decide +kernel)
  have hq : Json.Reader.ofText Query.reader Query.oddText = .ok q :=
    eq_ok_of_toOption_eq_some (by decide +kernel)
  have hefree : e.floatFree = true := by decide +kernel
  have hqfree : q.floatFree = true := by decide +kernel
  obtain ⟨hexpr, hquery, -⟩ := ofText_respell
  exact ⟨he, hq, hefree, hqfree, by decide +kernel, by decide +kernel,
    ((hexpr _ e he).2 hefree).1, ((hquery _ q hq).2 hqfree).1⟩

end QueryTuning
