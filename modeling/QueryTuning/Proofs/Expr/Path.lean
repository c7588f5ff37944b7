import QueryTuning.Expr.Basic
import QueryTuning.Rule.Substitute

/-!
# Paths into an expression

A path is a list of operand indices and leads from the root of an expression down to one of its
parts. Substitutes keep every part in its place; what they append comes behind all operands that
were there before.

* `Expr.at?` : the part that a path leads to.
* `Substitutes.at?_substitute` : a path leads to the same part, with its substitutes in place.
-/

namespace QueryTuning

namespace Expr

/-- The part of an expression that a path leads to, if it leads to one. -/
def at? : List Nat → Expr → Option Expr
  | [], e => some e
  | i :: path, e => e.children[i]?.bind (at? path)

@[simp] theorem at?_nil (e : Expr) : e.at? [] = some e := rfl

theorem at?_cons (i : Nat) (path : List Nat) (e : Expr) :
    e.at? (i :: path) = e.children[i]?.bind (at? path) := rfl

/-- A path that goes on leads through an operand of a call. -/
theorem exists_call_of_at?_cons {e d : Expr} {i : Nat} {path : List Nat}
    (h : e.at? (i :: path) = some d) :
    ∃ f es c, e = .call f es ∧ es[i]? = some c ∧ c.at? path = some d := by
  rw [at?_cons] at h
  obtain ⟨c, hc, hd⟩ := Option.bind_eq_some_iff.mp h
  cases e with
  | literal v => cases hc
  | identifier x => cases hc
  | call f es => exact ⟨f, es, c, rfl, hc, hd⟩

/-- Under the name of another function the operands are the same. -/
theorem children_rename (f : String) (e : Expr) : (e.rename f).children = e.children := by
  cases e <;> rfl

/-- Below the root, another name makes no difference. -/
theorem at?_rename_cons (f : String) (i : Nat) (path : List Nat) (e : Expr) :
    (e.rename f).at? (i :: path) = e.at? (i :: path) := by
  rw [at?_cons, at?_cons, children_rename]

end Expr

namespace Substitutes

/-- The operands of a call with substitutes in place are those of the call itself, with their
    substitutes in place, and then perhaps a number. -/
theorem children_substitute (s : Substitutes) (e : Expr) :
    ∃ appended, (s.substitute e).value.children
      = e.children.map (fun d => (s.substitute d).value) ++ appended := by
  cases e with
  | literal v => exact ⟨[], rfl⟩
  | identifier x => exact ⟨[], rfl⟩
  | call f es =>
    rw [value_substitute_call]
    exact ⟨_, rfl⟩

/-- **Substitutes keep every part in its place.** The induction is on the path. -/
theorem at?_substitute (s : Substitutes) {path : List Nat} {e d : Expr}
    (h : e.at? path = some d) : (s.substitute e).value.at? path = some (s.substitute d).value := by
  induction path generalizing e with
  | nil =>
    cases h
    rfl
  | cons i path ih =>
    rw [Expr.at?_cons] at h
    obtain ⟨c, hc, hd⟩ := Option.bind_eq_some_iff.mp h
    obtain ⟨appended, hchildren⟩ := s.children_substitute e
    -- What is appended comes behind, so the operands keep their indices.
    have hlt : i < e.children.length := (List.getElem?_eq_some_iff.mp hc).1
    have hchild : (s.substitute e).value.children[i]? = some (s.substitute c).value := by
      rw [hchildren, List.getElem?_append_left (by simpa using hlt), List.getElem?_map, hc]
      rfl
    rw [Expr.at?_cons, hchild]
    exact ih hd

end Substitutes

end QueryTuning
