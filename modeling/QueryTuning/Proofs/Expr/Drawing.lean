import QueryTuning.Expr.Text
import QueryTuning.Proofs.Expr.Census
import QueryTuning.Proofs.Literal.Text
import QueryTuning.Proofs.Tree.Drawing

/-!
# Drawings of expressions

The tree of an expression has the nodes of a walk, and it is the tree of no other expression. Every
label begins with a letter and ends in a parenthesis, so it stands out against the margin and may
close a row, whatever names and texts it shows.

* `Expr.Legible` : the expressions whose drawings are made out.
* `Expr.labels_tree` : the labels of the tree are those of the nodes of a walk.
* `Expr.tree_inj` : expressions are told by their trees.
-/

namespace QueryTuning

/-- A text of a single line. -/
def OneLine (s : String) : Prop := '\n' ∉ s.toList

instance : DecidablePred OneLine := fun s => inferInstanceAs (Decidable ('\n' ∉ s.toList))

/-- A literal is **legible** in a drawing if it is no floating-point number, and no text of several
    lines. -/
def Literal.Legible : Literal → Prop
  | null | bool _ | int _ => True
  | float _ => False
  | string s => OneLine s

instance : DecidablePred Literal.Legible
  | .null | .bool _ | .int _ => .isTrue trivial
  | .float _ => .isFalse id
  | .string s => inferInstanceAs (Decidable (OneLine s))

theorem Literal.Legible.isFloat {v : Literal} (h : v.Legible) : v.isFloat = false := by
  cases v with
  | float x => exact h.elim
  | _ => rfl

/-- The spelling of a legible literal is a single line. -/
theorem Literal.Legible.oneLine_text {v : Literal} (h : v.Legible) : OneLine v.text := by
  cases v with
  | null => exact (by decide : '\n' ∉ "NULL".toList)
  | bool b =>
    cases b
    · exact (by decide : '\n' ∉ "false".toList)
    · exact (by decide : '\n' ∉ "true".toList)
  | int n =>
    intro hmem
    rcases Numeral.mem_text_ofInt hmem with hc | hc <;> revert hc <;> decide
  | float x => exact h.elim
  | string s =>
    intro hmem
    rcases Literal.mem_quoted hmem with hc | hc
    · revert hc
      decide
    · exact h hc

namespace Expr

/-- An expression is **legible** in a drawing if its constants are, and if the names of columns and
    functions are single lines. -/
def Legible (e : Expr) : Prop := e.MadeOf Literal.Legible OneLine OneLine

instance : DecidablePred Legible := fun e =>
  inferInstanceAs (Decidable (e.MadeOf Literal.Legible OneLine OneLine))

theorem legible_call {f : String} {es : List Expr} :
    Legible (.call f es) ↔ OneLine f ∧ ∀ e ∈ es, e.Legible := madeOf_call

/-! ## Labels -/

/-- **The labels of a drawing** are those of the nodes of a walk. -/
theorem labels_tree (e : Expr) : e.tree.labels = e.walk.map label := by
  induction e using inductionOn with
  | literal v => rfl
  | identifier x => rfl
  | call f es ih =>
    rw [tree_call, walk_call, Tree.labels, Tree.forestLabels_eq_flatMap, List.map_cons,
      List.flatMap_map, List.map_flatMap]
    exact congrArg _ (List.flatMap_congr ih)

/-- The word for the form of an expression. -/
def form : Expr → String
  | literal _ => "Literal"
  | identifier _ => "Identifier"
  | call _ _ => "Function"

/-- The words for the forms. -/
def forms : List String := ["Literal", "Identifier", "Function"]

theorem form_mem_forms (e : Expr) : e.form ∈ forms := by
  cases e <;> simp [form, forms]

/-- The words begin with different letters. -/
theorem eq_of_mem_forms : ∀ w ∈ forms, ∀ w' ∈ forms,
    w.toList.head? = w'.toList.head? → w = w' := by
  decide

/-- The words are neither empty nor do they break a line. -/
theorem ne_nil_of_mem_forms : ∀ w ∈ forms, w.toList ≠ [] ∧ '\n' ∉ w.toList ∧
    w.toList.head? ∉ Tree.marks.map some := by
  decide

/-- What a label shows of an expression. -/
def shown : Expr → String
  | literal v => v.text
  | identifier x => x
  | call f _ => f

/-- A label is the word for the form and what is shown, in parentheses. -/
theorem toList_label (e : Expr) :
    e.label.toList = (e.form.toList ++ '(' :: e.shown.toList) ++ [')'] := by
  cases e <;> simp [label, form, shown]

/-- A label begins with the letter that its word begins with. -/
theorem head?_label (e : Expr) : e.label.toList.head? = e.form.toList.head? := by
  rw [toList_label, List.append_assoc, List.head?_append_of_ne_nil]
  exact (ne_nil_of_mem_forms _ e.form_mem_forms).1

/-- Labels are told by their words and by what they show. -/
theorem form_shown_of_label_eq {e f : Expr} (h : e.label = f.label) :
    e.form = f.form ∧ e.shown = f.shown := by
  have hhead := congrArg (·.toList.head?) h
  simp only [head?_label] at hhead
  have hform := eq_of_mem_forms _ e.form_mem_forms _ f.form_mem_forms hhead
  have hlist := congrArg String.toList h
  rw [toList_label, toList_label, List.append_cancel_right_eq, hform, List.append_cancel_left_eq,
    List.cons.injEq] at hlist
  exact ⟨hform, String.toList_injective hlist.2⟩

theorem label_tree (e : Expr) : e.tree.label = e.label := by
  cases e with
  | call f es => rw [tree_call, Tree.label]
  | _ => rfl

/-- A label stands out against a margin. -/
theorem standsOut_label (e : Expr) : Tree.StandsOut e.tree.label := by
  obtain ⟨hne, -, hmark⟩ := ne_nil_of_mem_forms _ e.form_mem_forms
  rw [label_tree, Tree.StandsOut]
  cases hlabel : e.label.toList with
  | nil => simp [toList_label] at hlabel
  | cons c cs =>
    refine ⟨c, cs, rfl, fun hc => hmark ?_⟩
    rw [← head?_label, hlabel, List.head?_cons]
    exact List.mem_map_of_mem hc

/-- The root of a legible expression shows a single line. -/
theorem Legible.oneLine_shown {e : Expr} (h : e.Legible) : OneLine e.shown := by
  cases e with
  | literal v => exact (madeOf_literal.mp h).oneLine_text
  | identifier x => exact madeOf_identifier.mp h
  | call f es => exact (legible_call.mp h).1

/-- All parts of a legible expression are legible. -/
theorem Legible.of_mem_walk {e d : Expr} (h : e.Legible) (hd : d ∈ e.walk) : d.Legible := by
  induction e using inductionOn with
  | literal v =>
    obtain rfl := List.mem_singleton.mp hd
    exact h
  | identifier x =>
    obtain rfl := List.mem_singleton.mp hd
    exact h
  | call f es ih =>
    rw [walk_call, List.mem_cons, List.mem_flatMap] at hd
    rcases hd with rfl | ⟨e, he, hd⟩
    · exact h
    · exact ih e he ((legible_call.mp h).2 e he) hd

/-- The labels of a legible expression may close a row. -/
theorem Legible.closesRow {e : Expr} (h : e.Legible) :
    ∀ label ∈ e.tree.labels, Tree.ClosesRow label := by
  intro label hlabel
  rw [labels_tree] at hlabel
  obtain ⟨d, hd, rfl⟩ := List.mem_map.mp hlabel
  have hshown := (h.of_mem_walk hd).oneLine_shown
  obtain ⟨-, hform, -⟩ := ne_nil_of_mem_forms _ d.form_mem_forms
  refine ⟨by simp [toList_label], ?_⟩
  rw [toList_label]
  refine Text.Whole.concat ?_ (by decide) (by decide)
  rw [List.mem_append, List.mem_cons]
  rintro (hmem | hmem | hmem)
  · exact hform hmem
  · revert hmem
    decide
  · exact hshown hmem

/-! ## Trees -/

/-- Expressions with the same tree are of the same form, and their roots show the same. -/
theorem form_shown_of_tree_eq {e f : Expr} (h : e.tree = f.tree) :
    e.form = f.form ∧ e.shown = f.shown := by
  apply form_shown_of_label_eq
  rw [← label_tree e, ← label_tree f, h]

/-- **Expressions are told by their trees**, if they are legible. -/
theorem tree_inj {e f : Expr} (he : e.Legible) (hf : f.Legible) (h : e.tree = f.tree) : e = f := by
  induction e using inductionOn generalizing f with
  | literal v =>
    obtain ⟨hform, hshown⟩ := form_shown_of_tree_eq h
    cases f with
    | literal w =>
      have hv := (madeOf_literal.mp he).isFloat
      have hw := (madeOf_literal.mp hf).isFloat
      rw [Literal.text_inj hv hw hshown]
    | identifier y => exact absurd hform (by decide : "Literal" ≠ "Identifier")
    | call g ds => exact absurd hform (by decide : "Literal" ≠ "Function")
  | identifier x =>
    obtain ⟨hform, hshown⟩ := form_shown_of_tree_eq h
    cases f with
    | literal w => exact absurd hform (by decide : "Identifier" ≠ "Literal")
    | identifier y => exact congrArg identifier hshown
    | call g ds => exact absurd hform (by decide : "Identifier" ≠ "Function")
  | call g es ih =>
    obtain ⟨hform, hshown⟩ := form_shown_of_tree_eq h
    cases f with
    | literal w => exact absurd hform (by decide : "Function" ≠ "Literal")
    | identifier y => exact absurd hform (by decide : "Function" ≠ "Identifier")
    | call g' ds =>
      obtain rfl : g = g' := hshown
      rw [tree_call, tree_call, Tree.node.injEq] at h
      have hes := (legible_call.mp he).2
      have hds := (legible_call.mp hf).2
      rw [eq_of_map_eq (fun e he d hd => ih e he (hes e he) (hds d hd)) h.2]

end Expr

end QueryTuning
