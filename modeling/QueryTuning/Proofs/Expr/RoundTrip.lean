import QueryTuning.Expr.Json
import QueryTuning.Expr.Walk
import QueryTuning.Proofs.Json.Reads

/-!
# Expressions and their text

What is written for an expression without floating-point numbers is read back as the expression,
unless too many brackets of the text are open at once.

* `Expr.nest` : how many brackets of the text are open at once, in terms of the expression.
* `Expr.floatFree` : whether an expression is made without floating-point numbers.
* `Expr.reads` : the reader of expressions reads them back.
-/

namespace QueryTuning

open Json (Reads Fills)

/-! ## Greatest numbers -/

namespace Expr

theorem greatest_cons (k : Nat) (ks : List Nat) : greatest (k :: ks) = max k (greatest ks) := rfl

/-- The greatest of some numbers is bounded by what bounds all of them. -/
theorem greatest_le_iff {ns : List Nat} {k : Nat} : greatest ns ≤ k ↔ ∀ n ∈ ns, n ≤ k := by
  induction ns with
  | nil => simp [greatest]
  | cons n ns ih => rw [greatest_cons, Nat.max_le, ih, List.forall_mem_cons]

/-- The greatest of two lists of numbers is the greater of their greatest ones. -/
theorem greatest_append (ks ls : List Nat) :
    greatest (ks ++ ls) = max (greatest ks) (greatest ls) := by
  induction ks with
  | nil => exact (Nat.zero_max _).symm
  | cons k ks ih => rw [List.cons_append, greatest_cons, greatest_cons, ih, Nat.max_assoc]

/-- Where a number is added to all others, it is added to the greatest one. -/
theorem max_greatest_map_add {α : Type} (k : Nat) (f : α → Nat) (as : List α) :
    max k (greatest (as.map fun a => k + f a)) = k + greatest (as.map f) := by
  induction as with
  | nil => exact Nat.max_zero k
  | cons a as ih =>
    rw [List.map_cons, List.map_cons, greatest_cons, greatest_cons]
    omega

end Expr

/-- Items are nested as deeply as the one that is nested most deeply. -/
theorem Json.itemsNesting_eq (vs : List Json) :
    Json.itemsNesting vs = Expr.greatest (vs.map Json.nesting) := by
  induction vs with
  | nil => rfl
  | cons v vs ih => rw [Json.itemsNesting, ih, List.map_cons, Expr.greatest_cons]

/-! ## Literals -/

namespace Literal

/-- Whether a literal is a floating-point number. -/
def isFloat : Literal → Bool
  | float _ => true
  | null | bool _ | int _ | string _ => false

/-- The missing value is written as a bare name, and all other literals with a bracket. -/
theorem nesting_toJson (v : Literal) : v.toJson.nesting = if v = null then 0 else 1 := by
  cases v with
  | float x =>
    rw [toJson, Json.real]
    split <;> rfl
  | _ => rfl

/-- A literal that is no floating-point number has a numeral that JSON admits, if it has any. -/
theorem wellFormed_toJson {v : Literal} (h : v.isFloat = false) : v.toJson.WellFormed := by
  cases v with
  | int n => exact ⟨Numeral.wellFormed_ofInt n.toInt, trivial⟩
  | float x => cases h
  | null => trivial
  | bool b => exact ⟨trivial, trivial⟩
  | string s => exact ⟨trivial, trivial⟩

/-- **A literal that is no floating-point number is read back.** -/
theorem reads {v : Literal} (h : v.isFloat = false) (room : Nat) :
    Reads reader room v.toJson v := by
  cases v with
  | null => exact Reads.bareName rfl room
  | bool b => exact Reads.variant rfl fun r _ => (Reads.bool r b).map bool
  | int n => exact Reads.variant rfl fun r _ => (Reads.int64 r n).map int
  | float x => cases h
  | string s => exact Reads.variant rfl fun r _ => (Reads.string r s).map string

end Literal

namespace Expr

/-! ## Measures of an expression -/

/-- **The depth of the brackets** in the text of an expression: a name stands inside of one
    bracket, as does the missing value, any other constant inside of two, and the operands of a
    call inside of three. -/
def nest (e : Expr) : Nat :=
  e.fold (fun v => if v = .null then 1 else 2) (fun _ => 1) fun _ nests => 3 + greatest nests

theorem nest_call (f : String) (es : List Expr) :
    (call f es).nest = 3 + greatest (es.map nest) := by
  rw [nest, fold_call]
  rfl

/-- A call is nested deeper than each of its operands by three brackets. -/
theorem nest_call_le_iff {f : String} {es : List Expr} {k : Nat} :
    (call f es).nest ≤ 3 + k ↔ ∀ e ∈ es, e.nest ≤ k := by
  rw [nest_call, Nat.add_le_add_iff_left, greatest_le_iff, List.forall_mem_map]

/-- Whether no constant inside of an expression is a floating-point number. -/
def floatFree (e : Expr) : Bool :=
  e.fold (fun v => !v.isFloat) (fun _ => true) fun _ frees => frees.all id

/-- The operands of a call without floating-point numbers are without them. -/
theorem floatFree_call {f : String} {es : List Expr} :
    (call f es).floatFree = true ↔ ∀ e ∈ es, e.floatFree = true := by
  rw [floatFree, fold_call, List.all_map, List.all_eq_true]
  rfl

/-- **The text of an expression is nested as deeply as the expression says.** -/
theorem nesting_toJson (e : Expr) : e.toJson.nesting = e.nest := by
  induction e using inductionOn with
  | literal v =>
    have hliteral := v.nesting_toJson
    rw [toJson_literal, Json.variant, Json.nesting, Json.membersNesting, Json.membersNesting,
      hliteral, nest, fold_literal]
    split <;> rfl
  | identifier x => rfl
  | call f es ih =>
    have hes : (es.map toJson).map Json.nesting = es.map nest := by
      rw [List.map_map]
      exact List.map_congr_left ih
    rw [toJson_call, nest, fold_call]
    simp only [Json.variant, callRecord, Json.nesting, Json.membersNesting, Json.itemsNesting_eq,
      hes]
    show 1 + max (1 + max 0 (max (1 + greatest (es.map nest)) 0)) 0 = 3 + greatest (es.map nest)
    omega

/-- No expression is written as null. -/
theorem toJson_ne_null (e : Expr) : e.toJson ≠ .null := by
  cases e <;> simp [Json.variant]

/-- An expression without floating-point numbers has numerals that JSON admits. -/
theorem wellFormed_toJson {e : Expr} (h : e.floatFree = true) : e.toJson.WellFormed := by
  induction e using inductionOn with
  | literal v =>
    refine ⟨Literal.wellFormed_toJson ?_, trivial⟩
    simpa [floatFree] using h
  | identifier x => exact ⟨trivial, trivial⟩
  | call f es ih =>
    rw [toJson_call]
    refine ⟨⟨trivial, ?_, trivial⟩, trivial⟩
    rw [Json.WellFormed, Json.itemsWellFormed_iff, List.forall_mem_map]
    exact fun e he => ih e he (floatFree_call.mp h e he)

/-! ## Reading -/

/-- An expression is read as a variant whose operands are read as expressions, three brackets
    further in. -/
theorem reads_of_variants {room : Nat} {v : Json} {e : Expr}
    (h : ∀ operand, (∀ r, room = r + 3 → operand r = reader r) →
      Reads (Json.Variant.reader (variants operand)) room v e) : Reads reader room v e := by
  match room with
  | 0 => exact h noOperand fun r hr => by omega
  | 1 => exact h noOperand fun r hr => by omega
  | 2 => exact h noOperand fun r hr => by omega
  | room + 3 =>
    refine h (fun _ => reader room) fun r hr => ?_
    obtain rfl : room = r := by omega
    rfl

/-- The record of a call is read back if the operands are. -/
theorem reads_callRecord {operand : Json.Reader Expr} {room : Nat} (f : String) {es : List Expr}
    (h : ∀ r, room = r + 2 → ∀ e ∈ es, Reads operand r e.toJson e) :
    Reads (callFormat operand).reader room (callRecord f (es.map toJson)) (f, es) := by
  have hfinish : (callFormat operand).finish ⟨some f, some es⟩ = .ok (f, es) := rfl
  refine Reads.record hfinish fun r hr => ?_
  refine Fills.cons rfl rfl ((Reads.string r f).map _) ?_
  refine Fills.cons rfl rfl ((Reads.list fun k hk => ?_).map _) (Fills.nil _ r _)
  rw [List.forall₂_map_left_iff, List.forall₂_same]
  exact h k (by omega)

/-- **An expression without floating-point numbers is read back.** -/
theorem reads {e : Expr} (h : e.floatFree = true) (room : Nat) : Reads reader room e.toJson e := by
  induction e using inductionOn generalizing room with
  | literal v =>
    have hv : v.isFloat = false := by simpa [floatFree] using h
    refine reads_of_variants fun operand _ => ?_
    exact Reads.variant rfl fun r _ => (Literal.reads hv r).map literal
  | identifier x =>
    refine reads_of_variants fun operand _ => ?_
    exact Reads.variant rfl fun r _ => (Reads.string r x).map identifier
  | call f es ih =>
    rw [toJson_call]
    -- Between a call and its operands there are three brackets, each of which takes some room.
    refine reads_of_variants fun operand hoperand => ?_
    refine Reads.variant rfl fun r hr => (reads_callRecord f fun k hk e he => ?_).map _
    have hread := ih e he (floatFree_call.mp h e he) k
    unfold Reads at hread ⊢
    rw [hoperand k (by omega), hread]

/-- What is written for an expression without floating-point numbers is read back, or is
    malformed. -/
theorem ofText_text {e : Expr} (h : e.floatFree = true) :
    Json.Reader.ofText reader e.toJson.text
      = if e.nest ≤ 127 then .ok e else .error (.fault .malformed) := by
  rw [← e.nesting_toJson]
  exact (reads h Json.maxNesting).ofText (wellFormed_toJson h)

end Expr

end QueryTuning
