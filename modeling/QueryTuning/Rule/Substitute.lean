import QueryTuning.Rule.Basic
import QueryTuning.Substitutes

/-!
# Substitutes for functions

`Query.substitute` puts substitutes in the place of functions, everywhere in a query and at any
depth. The operands of a call come before the call itself, so a number that is added to a call is
never looked at again.

* `Substitutes.substituteCall` : a single call.
* `Substitutes.substitute` : an expression.
* `Query.substitute` : a query.
* `Query.approximate` : a query, with approximate aggregations for exact ones.
-/

namespace QueryTuning

namespace Substitutes

/-- Puts the substitute of a function in its place, where the operands have their substitutes
    already. A call is changed by a new name, by a number that is added, and by its operands. -/
def substituteCall (s : Substitutes) (operator : String) (operands : List (Adjusted Expr)) :
    Adjusted Expr :=
  let operands := Adjusted.ofList operands
  match s.lookup operator with
  | none => ⟨.call operator operands.value, operands.changed⟩
  | some new =>
    { value := .call new.target (operands.value ++ new.appended.toList.map (.literal ∘ .int))
      changed := operands.changed || operator != new.target || new.appended.isSome }

/-- Puts substitutes in place, from the innermost calls outwards. -/
def substitute (s : Substitutes) (e : Expr) : Adjusted Expr :=
  e.fold (.same ∘ .literal) (.same ∘ .identifier) s.substituteCall

@[simp] theorem substitute_literal (s : Substitutes) (v : Literal) :
    s.substitute (.literal v) = .same (.literal v) := rfl

@[simp] theorem substitute_identifier (s : Substitutes) (x : String) :
    s.substitute (.identifier x) = .same (.identifier x) := rfl

@[simp] theorem substitute_call (s : Substitutes) (f : String) (es : List Expr) :
    s.substitute (.call f es) = s.substituteCall f (es.map s.substitute) := by
  simp only [substitute, Expr.fold_call]
  rfl

/-- What becomes of a call: the target stands in the place of the function, if there is one, and a
    number that comes with it stands behind the operands. -/
theorem value_substitute_call (s : Substitutes) (f : String) (es : List Expr) :
    (s.substitute (.call f es)).value
      = .call ((s.lookup f).elim f Substitution.target)
          (es.map (fun e => (s.substitute e).value)
            ++ ((s.lookup f).bind Substitution.appended).toList.map (.literal ∘ .int)) := by
  rw [substitute_call]
  cases hnew : s.lookup f <;> simp [substituteCall, hnew, Function.comp_def]

/-- A call is left alone exactly if its function has no substitute or stands in for itself, and all
    operands are left alone. -/
theorem changed_substitute_call_eq_false_iff (s : Substitutes) (f : String) (es : List Expr) :
    (s.substitute (.call f es)).changed = false
      ↔ (s.lookup f = none ∨ s.lookup f = some { target := f }) ∧
        ∀ e ∈ es, (s.substitute e).changed = false := by
  rw [substitute_call]
  cases hnew : s.lookup f with
  | none => simp [substituteCall, hnew]
  | some new =>
    obtain ⟨target, appended⟩ := new
    -- The flag tells of the operands, of a new name and of a number that is added.
    simp only [substituteCall, hnew, Adjusted.changed_ofList, Bool.or_eq_false_iff,
      bne_eq_false_iff_eq, Option.isSome_eq_false_iff, Option.isNone_iff_eq_none, reduceCtorEq,
      false_or, Option.some.injEq, Substitution.mk.injEq, List.any_map, List.any_eq_false,
      Function.comp_apply, Bool.not_eq_true]
    constructor
    · intro h
      exact ⟨⟨h.1.2.symm, h.2⟩, h.1.1⟩
    · intro h
      exact ⟨⟨h.2, h.1.1.symm⟩, h.1.2⟩

end Substitutes

namespace Query

/-- Puts substitutes in place in every expression of a query. -/
def substitute (s : Substitutes) (q : Query) : Adjusted Query where
  value := q.mapRoots fun e => (s.substitute e).value
  changed := q.roots.any fun e => (s.substitute e).changed

/-- Puts approximate aggregations in the place of exact ones. -/
def approximate (q : Query) : Adjusted Query :=
  q.substitute .approximate

end Query

end QueryTuning
