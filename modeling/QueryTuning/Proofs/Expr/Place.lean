import QueryTuning.Proofs.Expr.Path
import QueryTuning.Proofs.Expr.Text

/-!
# Places in a spelling

A path into an expression leads to a place in its spelling. If another expression is put there, the
spelling changes in this place only: what stands in front of it and behind it is the same, and what
stands behind it closes it.

* `Expr.put` : puts an expression in the place that a path leads to.
* `HasPlace` : texts with a place for an expression.
* `toList_listed_append` : a list with commas around one of its members.
* `Expr.hasPlace_text_put` : a path into an expression leads to a place in its spelling.
-/

namespace QueryTuning

/-! ## Places -/

/-- Texts that **have a place** for an expression: whatever expression is put there, the same stands
    in front of it, and the same stands behind it, which closes the expression. -/
def HasPlace (text : Expr → List Char) : Prop :=
  ∃ before after, Closes after ∧ ∀ d, text d = before ++ d.text.toList ++ after

/-- What is closed by the first of two texts is closed by both, and so it is by the second if the
    first is empty. -/
theorem Closes.append {r s : List Char} (hr : Closes r) (hs : Closes s) : Closes (r ++ s) := by
  intro c hc
  cases r with
  | nil => exact hs c hc
  | cons d r => exact hr c hc

namespace HasPlace

variable {text text' : Expr → List Char}

/-- A spelling alone is a place. -/
theorem self : HasPlace fun d => d.text.toList :=
  ⟨[], [], closes_nil, fun _ => (List.append_nil _).symm⟩

theorem of_eq (h : HasPlace text) (heq : ∀ d, text' d = text d) : HasPlace text' := by
  obtain ⟨before, after, hafter, htext⟩ := h
  exact ⟨before, after, hafter, fun d => (heq d).trans (htext d)⟩

/-- The place is still there behind any text, and in front of a text that closes what is there. -/
theorem append (h : HasPlace text) (front : List Char) {rest : List Char} (hrest : Closes rest) :
    HasPlace fun d => front ++ (text d ++ rest) := by
  obtain ⟨before, after, hafter, htext⟩ := h
  refine ⟨front ++ before, after ++ rest, hafter.append hrest, fun d => ?_⟩
  simp only [htext d, List.append_assoc]

end HasPlace

/-! ## Lists with commas -/

section Listed

variable {α : Type} {f : α → String}

/-- **A list with commas around one of its members**: a comma stands behind each of those before it,
    and in front of each of those behind it. -/
theorem toList_listed_append (as : List α) (b : α) (bs : List α) :
    (", ".intercalate ((as ++ b :: bs).map f)).toList
      = as.flatMap (fun a => (f a).toList ++ ", ".toList)
        ++ ((f b).toList ++ bs.flatMap fun c => ", ".toList ++ (f c).toList) := by
  induction as with
  | nil => exact toList_listed f b bs
  | cons a as ih =>
    obtain ⟨c, cs, hcs⟩ := List.exists_cons_of_ne_nil (List.append_ne_nil_of_right_ne_nil as
      (List.cons_ne_nil b bs))
    rw [hcs] at ih
    rw [List.cons_append, hcs, List.map_cons, List.map_cons, String.intercalate_cons_cons,
      ← List.map_cons, String.toList_append, String.toList_append, ih, List.flatMap_cons]
    simp only [List.append_assoc]

/-- Members behind commas close what stands before them. -/
theorem closes_flatMap_listed (f : α → String) (as : List α) :
    Closes (as.flatMap fun a => ", ".toList ++ (f a).toList) := by
  cases as with
  | nil => exact closes_nil
  | cons a as => exact closes_cons (by decide) _

/-- A place in a member of a list is a place in the list. -/
theorem HasPlace.listed {as : List α} {i : Nat} (hi : i < as.length) {member : Expr → α}
    (h : HasPlace fun d => (f (member d)).toList) :
    HasPlace fun d => (", ".intercalate ((as.set i (member d)).map f)).toList := by
  have hplace := h.append ((as.take i).flatMap fun a => (f a).toList ++ ", ".toList)
    (closes_flatMap_listed f (as.drop (i + 1)))
  refine hplace.of_eq fun d => ?_
  rw [List.set_eq_take_append_cons_drop, if_pos hi, toList_listed_append]

end Listed

/-! ## Expressions -/

namespace Expr

/-- Puts an expression in the place that a path leads to. Nothing is changed if there is no such
    place. -/
def put : List Nat → Expr → Expr → Expr
  | [], _, d => d
  | i :: path, call f es, d => call f (es.modify i fun e => e.put path d)
  | _ :: _, literal v, _ => literal v
  | _ :: _, identifier x, _ => identifier x

/-- In a member that is there, a modification is a replacement. -/
theorem modify_eq_set {α : Type} {as : List α} {i : Nat} {a : α} (ha : as[i]? = some a)
    (f : α → α) : as.modify i f = as.set i (f a) := by
  rw [List.modify_eq_set_getElem?, ha]
  rfl

/-- An operand that a path goes through is replaced. -/
theorem put_cons {f : String} {es : List Expr} {i : Nat} {e : Expr} (he : es[i]? = some e)
    (path : List Nat) (d : Expr) :
    (call f es).put (i :: path) d = .call f (es.set i (e.put path d)) := by
  rw [put, modify_eq_set he]

/-- What is there already may be put there. -/
theorem put_self {e d : Expr} {path : List Nat} (h : e.at? path = some d) :
    e.put path d = e := by
  induction path generalizing e with
  | nil => exact (Option.some.inj h).symm
  | cons i path ih =>
    obtain ⟨f, es, c, rfl, hc, hd⟩ := exists_call_of_at?_cons h
    obtain ⟨hi, rfl⟩ := List.getElem?_eq_some_iff.mp hc
    rw [put_cons hc, ih hd, List.set_getElem_self]

/-- **A path leads to a place in the spelling.** The induction is on the path: each call on the way
    puts its name, a parenthesis and the operands before in front, and the operands behind and
    another parenthesis at the end. -/
theorem hasPlace_text_put {e d : Expr} {path : List Nat} (h : e.at? path = some d) :
    HasPlace fun c => (e.put path c).text.toList := by
  induction path generalizing e with
  | nil => exact HasPlace.self
  | cons i path ih =>
    obtain ⟨f, es, c, rfl, hc, hd⟩ := exists_call_of_at?_cons h
    have hi : i < es.length := (List.getElem?_eq_some_iff.mp hc).1
    have hclose : Closes [')'] := closes_cons (by decide) []
    refine (((ih hd).listed hi).append (f.toList ++ ['(']) hclose).of_eq fun x => ?_
    rw [put_cons hc, text_call]
    simp

end Expr

end QueryTuning
