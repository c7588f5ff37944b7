import Mathlib.Data.List.Perm.Basic
import QueryTuning.Expr.Walk
import QueryTuning.Proofs.Expr.Path
import QueryTuning.Proofs.Expr.RoundTrip

/-!
# What an expression is made of

Substitutes rename calls and append numbers to them. Here this is said of all the parts of an
expression together, in the order of a walk: no call, no column and no constant is lost, and
nothing is added but the numbers.

* `Expr.operators`, `Expr.identifiers`, `Expr.literals` : the parts, in the order of a walk.
* `Expr.MadeOf` : all parts have given properties.
* `Substitutes.operators_substitute` : every call is renamed once.
* `Substitutes.literals_substitute` : the numbers come to the constants.
* `Substitutes.depth_substitute_eq_succ_iff` : when an expression becomes deeper.
-/

namespace QueryTuning

namespace Expr

/-! ## The parts of an expression -/

/-- The functions that are called, as they are written, in the order of a walk. -/
def operators (e : Expr) : List String := e.walk.filterMap operator?

/-- The names of columns, in the order of a walk. -/
def identifiers (e : Expr) : List String := e.walk.filterMap identifier?

/-- The constants, in the order of a walk. -/
def literals (e : Expr) : List Literal := e.walk.filterMap literal?

/-- How often the function with this canonical name is called in an expression. -/
def callCount (name : String) (e : Expr) : Nat := e.walk.countP (isCallOf name)

@[simp] theorem operators_literal (v : Literal) : operators (.literal v) = [] := rfl

@[simp] theorem operators_identifier (x : String) : operators (.identifier x) = [] := rfl

@[simp] theorem operators_call (f : String) (es : List Expr) :
    operators (.call f es) = f :: es.flatMap operators := by
  rw [operators, walk_call, List.filterMap_cons, List.filterMap_flatMap]
  rfl

@[simp] theorem identifiers_literal (v : Literal) : identifiers (.literal v) = [] := rfl

@[simp] theorem identifiers_identifier (x : String) : identifiers (.identifier x) = [x] := rfl

@[simp] theorem identifiers_call (f : String) (es : List Expr) :
    identifiers (.call f es) = es.flatMap identifiers := by
  rw [identifiers, walk_call, List.filterMap_cons, List.filterMap_flatMap]
  rfl

@[simp] theorem literals_literal (v : Literal) : literals (.literal v) = [v] := rfl

@[simp] theorem literals_identifier (x : String) : literals (.identifier x) = [] := rfl

@[simp] theorem literals_call (f : String) (es : List Expr) :
    literals (.call f es) = es.flatMap literals := by
  rw [literals, walk_call, List.filterMap_cons, List.filterMap_flatMap]
  rfl

/-- Every node is a call, a column or a constant. -/
theorem length_walk (e : Expr) :
    e.walk.length = e.operators.length + e.identifiers.length + e.literals.length := by
  unfold operators identifiers literals
  induction e.walk with
  | nil => rfl
  | cons d ds ih =>
    rw [List.length_cons, ih]
    cases d <;> simp only [List.filterMap_cons, operator?, identifier?, literal?,
      List.length_cons] <;> omega

/-- Calls are counted by their names. -/
theorem callCount_eq (name : String) (e : Expr) :
    e.callCount name = e.operators.countP (canonicalName · == name) := by
  unfold callCount operators
  induction e.walk with
  | nil => rfl
  | cons d ds ih =>
    cases d <;>
      simp [isCallOf, canonicalOperator?, operator?, ih, List.countP_cons, List.filterMap_cons]

/-- A function that is not counted is not called. -/
theorem containsCall_eq_false_iff {name : String} {e : Expr} :
    e.containsCall name = false ↔ e.callCount name = 0 := by
  rw [containsCall, callCount, List.any_eq_false, List.countP_eq_zero]

/-! ## Properties of all parts -/

/-- An expression is **made of** constants, columns and functions that have given properties. -/
structure MadeOf (constant : Literal → Prop) (column function : String → Prop) (e : Expr) :
    Prop where
  /-- Every constant has its property. -/
  literals : ∀ v ∈ e.literals, constant v
  /-- Every name of a column has its property. -/
  identifiers : ∀ x ∈ e.identifiers, column x
  /-- Every function that is called has its property. -/
  operators : ∀ f ∈ e.operators, function f

variable {constant : Literal → Prop} {column function : String → Prop}

instance [DecidablePred constant] [DecidablePred column] [DecidablePred function] :
    DecidablePred (MadeOf constant column function) := fun e =>
  decidable_of_iff ((∀ v ∈ e.literals, constant v) ∧ (∀ x ∈ e.identifiers, column x) ∧
      ∀ f ∈ e.operators, function f)
    ⟨fun ⟨hliterals, hidentifiers, hoperators⟩ => ⟨hliterals, hidentifiers, hoperators⟩,
      fun ⟨hliterals, hidentifiers, hoperators⟩ => ⟨hliterals, hidentifiers, hoperators⟩⟩

@[simp] theorem madeOf_literal {v : Literal} :
    MadeOf constant column function (.literal v) ↔ constant v := by
  constructor
  · exact fun h => h.literals v List.mem_cons_self
  · exact fun h => ⟨by simpa using h, by simp, by simp⟩

@[simp] theorem madeOf_identifier {x : String} :
    MadeOf constant column function (.identifier x) ↔ column x := by
  constructor
  · exact fun h => h.identifiers x List.mem_cons_self
  · exact fun h => ⟨by simp, by simpa using h, by simp⟩

/-- A call is made of its function and of what its operands are made of. -/
@[simp] theorem madeOf_call {f : String} {es : List Expr} :
    MadeOf constant column function (.call f es) ↔
      function f ∧ ∀ e ∈ es, MadeOf constant column function e := by
  constructor
  · rintro ⟨hliterals, hidentifiers, hoperators⟩
    simp only [literals_call, identifiers_call, operators_call, List.forall_mem_cons,
      List.forall_mem_flatMap] at hliterals hidentifiers hoperators
    exact ⟨hoperators.1, fun e he => ⟨hliterals e he, hidentifiers e he, hoperators.2 e he⟩⟩
  · rintro ⟨hf, hes⟩
    refine ⟨?_, ?_, ?_⟩
    · rw [literals_call, List.forall_mem_flatMap]
      exact fun e he => (hes e he).literals
    · rw [identifiers_call, List.forall_mem_flatMap]
      exact fun e he => (hes e he).identifiers
    · rw [operators_call, List.forall_mem_cons, List.forall_mem_flatMap]
      exact ⟨hf, fun e he => (hes e he).operators⟩

/-! ## Depth and paths -/

theorem one_le_depth (e : Expr) : 1 ≤ e.depth := by
  cases e with
  | literal v => exact Nat.le_refl 1
  | identifier x => exact Nat.le_refl 1
  | call f es => rw [depth_call]; omega

theorem le_greatest {ns : List Nat} {n : Nat} (h : n ∈ ns) : n ≤ greatest ns :=
  greatest_le_iff.mp (Nat.le_refl _) n h

/-- The greatest of some numbers is one of them, unless there are none. -/
theorem greatest_mem {ns : List Nat} (h : ns ≠ []) : greatest ns ∈ ns := by
  induction ns with
  | nil => exact absurd rfl h
  | cons n ns ih =>
    show max n (greatest ns) ∈ n :: ns
    by_cases hns : ns = []
    · subst hns
      simp [greatest]
    · rcases Nat.le_total n (greatest ns) with hle | hle
      · rw [Nat.max_eq_right hle]
        exact List.mem_cons_of_mem n (ih hns)
      · rw [Nat.max_eq_left hle]
        exact List.mem_cons_self

/-- No path is longer than the expression is deep. -/
theorem length_add_depth_le {path : List Nat} {e d : Expr} (h : e.at? path = some d) :
    path.length + d.depth ≤ e.depth := by
  induction path generalizing e with
  | nil =>
    cases h
    exact Nat.le_of_eq (Nat.zero_add _)
  | cons i path ih =>
    obtain ⟨f, es, c, rfl, hc, hd⟩ := exists_call_of_at?_cons h
    have hpath := ih hd
    have hmem : c ∈ es := List.mem_of_getElem? hc
    have hle := le_greatest (List.mem_map_of_mem (f := depth) hmem)
    rw [depth_call, List.length_cons]
    omega

/-- What a path leads to is met on a walk. -/
theorem mem_walk_of_at? {path : List Nat} {e d : Expr} (h : e.at? path = some d) : d ∈ e.walk := by
  induction path generalizing e with
  | nil =>
    cases h
    cases d <;> simp
  | cons i path ih =>
    obtain ⟨f, es, c, rfl, hc, hd⟩ := exists_call_of_at?_cons h
    rw [walk_call]
    exact List.mem_cons_of_mem _ (List.mem_flatMap.mpr ⟨c, List.mem_of_getElem? hc, ih hd⟩)

end Expr

namespace Substitutes

variable (s : Substitutes)

/-! ## What substitutes make of the parts -/

/-- The function that is called in the place of another one, or still that one. -/
def targetOf (f : String) : String := (s.lookup f).elim f Substitution.target

/-- The number that comes with the substitute of a function, if there is one. -/
def numberOf? (f : String) : Option Int64 := (s.lookup f).bind Substitution.appended

theorem substitute_call_eq (f : String) (es : List Expr) :
    (s.substitute (.call f es)).value
      = .call (s.targetOf f) (es.map (fun e => (s.substitute e).value)
          ++ (s.numberOf? f).toList.map (.literal ∘ .int)) :=
  s.value_substitute_call f es

/-- **Every call is renamed once**, and no call is added. -/
theorem operators_substitute (e : Expr) :
    (s.substitute e).value.operators = e.operators.map s.targetOf := by
  induction e using Expr.inductionOn with
  | literal v => rfl
  | identifier x => rfl
  | call f es ih =>
    have hnumber : ((s.numberOf? f).toList.map (Expr.literal ∘ Literal.int)).flatMap
        Expr.operators = [] := by
      cases s.numberOf? f <;> rfl
    rw [substitute_call_eq, Expr.operators_call, Expr.operators_call, List.map_cons,
      List.flatMap_append, hnumber, List.append_nil, List.flatMap_map, List.map_flatMap,
      List.flatMap_congr ih]

/-- **The columns stay as they are.** -/
theorem identifiers_substitute (e : Expr) :
    (s.substitute e).value.identifiers = e.identifiers := by
  induction e using Expr.inductionOn with
  | literal v => rfl
  | identifier x => rfl
  | call f es ih =>
    have hnumber : ((s.numberOf? f).toList.map (Expr.literal ∘ Literal.int)).flatMap
        Expr.identifiers = [] := by
      cases s.numberOf? f <;> rfl
    rw [substitute_call_eq, Expr.identifiers_call, Expr.identifiers_call, List.flatMap_append,
      hnumber, List.append_nil, List.flatMap_map, List.flatMap_congr ih]

/-- The numbers that come with the calls of an expression, in the order of a walk. -/
def numbers (e : Expr) : List Int64 := e.operators.filterMap s.numberOf?

theorem numbers_call (f : String) (es : List Expr) :
    s.numbers (.call f es) = (s.numberOf? f).toList ++ es.flatMap s.numbers := by
  rw [numbers, Expr.operators_call, List.filterMap_cons, List.filterMap_flatMap]
  cases s.numberOf? f <;> rfl

/-- **The numbers come to the constants**, one for each call that gets a number. -/
theorem literals_substitute (e : Expr) :
    ((s.substitute e).value.literals).Perm (e.literals ++ (s.numbers e).map Literal.int) := by
  induction e using Expr.inductionOn with
  | literal v => exact List.Perm.refl _
  | identifier x => exact List.Perm.refl _
  | call f es ih =>
    have hnumber : ((s.numberOf? f).toList.map (Expr.literal ∘ Literal.int)).flatMap
        Expr.literals = (s.numberOf? f).toList.map Literal.int := by
      cases s.numberOf? f <;> rfl
    -- The numbers of an operand stand among its constants, and have to be brought behind the
    -- constants of all operands.
    have hoperands : (es.flatMap fun e => (s.substitute e).value.literals).Perm
        (es.flatMap Expr.literals ++ es.flatMap fun e => (s.numbers e).map Literal.int) :=
      (List.Perm.flatMap_left es ih).trans (List.flatMap_append_perm es _ _).symm
    rw [substitute_call_eq, Expr.literals_call, Expr.literals_call, numbers_call,
      List.flatMap_append, hnumber, List.flatMap_map, List.map_append, List.map_flatMap]
    refine (hoperands.append_right _).trans ?_
    rw [List.append_assoc]
    exact List.Perm.append_left _ List.perm_append_comm

/-- As many nodes are added as there are numbers. -/
theorem length_walk_substitute (e : Expr) :
    (s.substitute e).value.walk.length = e.walk.length + (s.numbers e).length := by
  have hliterals := (s.literals_substitute e).length_eq
  rw [List.length_append, List.length_map] at hliterals
  rw [Expr.length_walk, Expr.length_walk, operators_substitute, identifiers_substitute,
    List.length_map, hliterals]
  omega

/-! ## What substitutes make of the depth -/

/-- A call **grows** if it gets a number and has had no operand before. -/
def Grows (e : Expr) : Prop :=
  ∃ f, e = .call f [] ∧ (s.numberOf? f).isSome = true

theorem depth_substitute_call (f : String) (es : List Expr) :
    (s.substitute (.call f es)).value.depth
      = 1 + max (Expr.greatest (es.map fun e => (s.substitute e).value.depth))
          (if (s.numberOf? f).isSome then 1 else 0) := by
  rw [substitute_call_eq, Expr.depth_call, List.map_append, List.map_map, Expr.greatest_append]
  cases s.numberOf? f <;> rfl

/-- **Substitutes add one to the depth at most**, and never make an expression less deep. -/
theorem depth_substitute_bounds (e : Expr) :
    e.depth ≤ (s.substitute e).value.depth ∧ (s.substitute e).value.depth ≤ e.depth + 1 := by
  induction e using Expr.inductionOn with
  | literal v => exact ⟨Nat.le_refl 1, Nat.le_succ 1⟩
  | identifier x => exact ⟨Nat.le_refl 1, Nat.le_succ 1⟩
  | call f es ih =>
    have hle : Expr.greatest (es.map Expr.depth)
        ≤ Expr.greatest (es.map fun e => (s.substitute e).value.depth) := by
      rw [Expr.greatest_le_iff, List.forall_mem_map]
      intro e he
      exact Nat.le_trans (ih e he).1 (Expr.le_greatest (List.mem_map_of_mem he))
    have hge : Expr.greatest (es.map fun e => (s.substitute e).value.depth)
        ≤ Expr.greatest (es.map Expr.depth) + 1 := by
      rw [Expr.greatest_le_iff, List.forall_mem_map]
      intro e he
      have hdepth := Expr.le_greatest (List.mem_map_of_mem (f := Expr.depth) he)
      exact Nat.le_trans (ih e he).2 (Nat.succ_le_succ hdepth)
    rw [depth_substitute_call, Expr.depth_call]
    split <;> omega

/-- No operand becomes as deep as the call. -/
theorem depth_substitute_lt_of_mem {f : String} {es : List Expr} {e : Expr} (he : e ∈ es) :
    (s.substitute e).value.depth < (s.substitute (.call f es)).value.depth := by
  have hle := Expr.le_greatest (List.mem_map_of_mem (f := fun e => (s.substitute e).value.depth) he)
  rw [depth_substitute_call]
  omega

/-- A call that grows at the end of a longest path makes the expression deeper. The induction is on
    the path, where each operand on it is as deep as the call allows. -/
theorem depth_substitute_of_grows {path : List Nat} {e d : Expr} (hd : e.at? path = some d)
    (hlength : path.length + 1 = e.depth) (hgrows : s.Grows d) :
    (s.substitute e).value.depth = e.depth + 1 := by
  induction path generalizing e with
  | nil =>
    cases hd
    obtain ⟨f, rfl, hf⟩ := hgrows
    rw [depth_substitute_call, hf]
    rfl
  | cons i path ih =>
    obtain ⟨f, es, c, rfl, hc, hpath⟩ := Expr.exists_call_of_at?_cons hd
    have hmem : c ∈ es := List.mem_of_getElem? hc
    have hlong := Expr.length_add_depth_le hpath
    have hpos := d.one_le_depth
    have hle := Expr.le_greatest (List.mem_map_of_mem (f := Expr.depth) hmem)
    rw [List.length_cons, Expr.depth_call] at hlength
    have hdeeper := ih hpath (by omega)
    have hlt := s.depth_substitute_lt_of_mem (f := f) hmem
    have hbound := (s.depth_substitute_bounds (.call f es)).2
    rw [Expr.depth_call] at hbound ⊢
    omega

/-- Where an expression becomes deeper, a call that grows stands at the end of a longest path. The
    induction is on the expression: with operands, a call becomes deeper only if one of its deepest
    operands does. -/
theorem exists_grows_of_depth_substitute {e : Expr}
    (h : (s.substitute e).value.depth = e.depth + 1) :
    ∃ path d, e.at? path = some d ∧ path.length + 1 = e.depth ∧ s.Grows d := by
  induction e using Expr.inductionOn with
  | literal v => simp at h
  | identifier x => simp at h
  | call f es ih =>
    rw [depth_substitute_call, Expr.depth_call] at h
    by_cases hes : es = []
    · -- Without operands, the call itself is all there is.
      subst hes
      refine ⟨[], _, rfl, rfl, f, rfl, ?_⟩
      by_contra hnone
      simp [Expr.greatest, hnone] at h
    · -- Some operand is the deepest one afterwards.
      have hdepths : es.map (fun e => (s.substitute e).value.depth) ≠ [] := by simpa using hes
      obtain ⟨c, hc, hgreatest⟩ := List.mem_map.mp (Expr.greatest_mem hdepths)
      have hbound := (s.depth_substitute_bounds c).2
      have hpos := c.one_le_depth
      have hle := Expr.le_greatest (List.mem_map_of_mem (f := Expr.depth) hc)
      have hdeeper : (s.substitute c).value.depth = c.depth + 1 := by
        split at h <;> omega
      obtain ⟨path, d, hd, hlength, hgrows⟩ := ih c hc hdeeper
      obtain ⟨i, hi⟩ := List.mem_iff_getElem?.mp hc
      refine ⟨i :: path, d, ?_, ?_, hgrows⟩
      · rw [Expr.at?_cons, Expr.children, hi]
        exact hd
      · rw [List.length_cons, Expr.depth_call]
        split at h <;> omega

/-- **An expression becomes deeper** exactly if a call that grows stands at the end of a longest
    path. -/
theorem depth_substitute_eq_succ_iff (e : Expr) :
    (s.substitute e).value.depth = e.depth + 1
      ↔ ∃ path d, e.at? path = some d ∧ path.length + 1 = e.depth ∧ s.Grows d :=
  ⟨s.exists_grows_of_depth_substitute,
    fun ⟨_, _, hd, hlength, hgrows⟩ => s.depth_substitute_of_grows hd hlength hgrows⟩

end Substitutes

end QueryTuning
