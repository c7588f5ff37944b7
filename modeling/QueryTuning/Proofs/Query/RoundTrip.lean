import QueryTuning.Proofs.Expr.RoundTrip
import QueryTuning.Query.Json

/-!
# Queries and their text

What is written for a query without floating-point numbers is read back as the query, unless more
than 127 brackets of the text are open at once. Then the text is malformed.

* `Query.nest` : how many brackets of the text are open at once, in terms of the query.
* `Query.reads` : the reader of queries reads them back.
* `ofText_toJson_text` : what that means for the texts of expressions and queries.
-/

namespace QueryTuning

open Json (Reads Fills)

/-- A sort order is read back. -/
theorem Direction.reads (d : Direction) (room : Nat) : Reads reader room d.toJson d := by
  cases d with
  | ascending => exact Reads.bareName rfl room
  | descending => exact Reads.bareName rfl room

/-- A sort key without floating-point numbers is read back. -/
theorem SortKey.reads {key : SortKey} (h : key.expr.floatFree = true) (room : Nat) :
    Reads reader room key.toJson key := by
  have hfinish : format.finish ⟨some key.expr, some key.direction⟩ = .ok key := rfl
  refine Reads.record hfinish fun r _ => ?_
  refine Fills.cons rfl rfl ((Expr.reads h r).map _) ?_
  exact Fills.cons rfl rfl ((key.direction.reads r).map _) (Fills.nil _ r _)

/-- The bracket of a sort key stands around that of its expression. -/
theorem SortKey.nesting_toJson (key : SortKey) : key.toJson.nesting = 1 + key.expr.nest := by
  have hdirection : key.direction.toJson.nesting = 0 := by cases key.direction <;> rfl
  simp only [toJson, Json.nesting, Json.membersNesting, Expr.nesting_toJson, hdirection]
  omega

namespace Query

/-- **The depth of the brackets** in the text of a query: what is selected stands inside of two
    brackets, the condition inside of one, and what is sorted by inside of three. -/
def nest (q : Query) : Nat :=
  Expr.greatest (2 :: q.select.map (fun e => 2 + e.nest)
    ++ q.having.toList.map (fun e => 1 + e.nest)
    ++ q.orderBy.map fun key => 3 + key.expr.nest)

/-- What bounds the brackets of a query bounds them clause by clause. -/
theorem nest_le_iff {q : Query} {k : Nat} :
    q.nest ≤ k ↔ 2 ≤ k ∧ (∀ e ∈ q.select, 2 + e.nest ≤ k) ∧
      (∀ e ∈ q.having, 1 + e.nest ≤ k) ∧ ∀ key ∈ q.orderBy, 3 + key.expr.nest ≤ k := by
  simp only [nest, List.cons_append, Expr.greatest_le_iff, List.forall_mem_cons,
    List.forall_mem_append, List.forall_mem_map, Option.mem_toList, Option.mem_def, and_assoc]

/-- Whether no constant inside of a query is a floating-point number. -/
def floatFree (q : Query) : Bool := q.roots.all Expr.floatFree

/-- **The text of a query is nested as deeply as the query says.** -/
theorem nesting_toJson (q : Query) : q.toJson.nesting = q.nest := by
  have hselect : (q.select.map Expr.toJson).map Json.nesting = q.select.map Expr.nest := by
    rw [List.map_map]
    exact List.map_congr_left fun e _ => e.nesting_toJson
  have hkeys : (q.orderBy.map SortKey.toJson).map Json.nesting
      = q.orderBy.map fun key => 1 + key.expr.nest := by
    rw [List.map_map]
    exact List.map_congr_left fun key _ => key.nesting_toJson
  have hhaving : (Json.optional Expr.toJson q.having).nesting
      = Expr.greatest (q.having.toList.map Expr.nest) := by
    cases q.having with
    | none => rfl
    | some e => exact e.nesting_toJson.trans (Nat.max_zero e.nest).symm
  have hlimit : (Json.optional (fun n : UInt64 => Json.nat n.toNat) q.limit).nesting = 0 := by
    cases q.limit <;> rfl
  -- Each clause adds its own brackets to the greatest depth of its expressions.
  have haddSelect := Expr.max_greatest_map_add 2 Expr.nest q.select
  have haddHaving := Expr.max_greatest_map_add 1 Expr.nest q.having.toList
  have haddKeys := Expr.max_greatest_map_add 2 (fun key : SortKey => 1 + key.expr.nest) q.orderBy
  simp only [← Nat.add_assoc, Nat.reduceAdd] at haddKeys
  simp only [toJson, Json.nesting, Json.membersNesting, Json.itemsNesting_eq, hselect, hkeys,
    hhaving, hlimit]
  simp only [nest, Expr.greatest_append, Expr.greatest_cons]
  omega

/-- A query without floating-point numbers has numerals that JSON admits. -/
theorem wellFormed_toJson {q : Query} (h : q.floatFree = true) : q.toJson.WellFormed := by
  have hroots := List.all_eq_true.mp h
  refine ⟨?_, ?_, ?_, ?_, trivial⟩
  · rw [Json.WellFormed, Json.itemsWellFormed_iff, List.forall_mem_map]
    exact fun e he => Expr.wellFormed_toJson (hroots e (by simp [roots, he]))
  · cases hhaving : q.having with
    | none => trivial
    | some e => exact Expr.wellFormed_toJson (hroots e (by simp [roots, hhaving]))
  · rw [Json.WellFormed, Json.itemsWellFormed_iff, List.forall_mem_map]
    intro key hkey
    refine ⟨Expr.wellFormed_toJson (hroots key.expr ?_), ?_, trivial⟩
    · simp only [roots, List.mem_append, List.mem_map]
      exact .inr ⟨key, hkey, rfl⟩
    · cases key.direction <;> trivial
  · cases q.limit with
    | none => trivial
    | some n => exact Numeral.wellFormed_ofNat n.toNat

/-- **A query without floating-point numbers is read back.** -/
theorem reads {q : Query} (h : q.floatFree = true) (room : Nat) : Reads reader room q.toJson q := by
  have hroots := List.all_eq_true.mp h
  have hselect (r : Nat) : Reads (Json.Reader.list Expr.reader) r
      (.array (q.select.map Expr.toJson)) q.select := by
    refine Reads.list fun k _ => ?_
    rw [List.forall₂_map_left_iff, List.forall₂_same]
    exact fun e he => Expr.reads (hroots e (by simp [roots, he])) k
  have hhaving (r : Nat) : Reads (Json.Reader.option Expr.reader) r
      (.optional Expr.toJson q.having) q.having := by
    cases hsome : q.having with
    | none => exact Reads.none _ r
    | some e => exact Reads.some e.toJson_ne_null (Expr.reads (hroots e (by simp [roots, hsome])) r)
  have horderBy (r : Nat) : Reads (Json.Reader.list SortKey.reader) r
      (.array (q.orderBy.map SortKey.toJson)) q.orderBy := by
    refine Reads.list fun k _ => ?_
    rw [List.forall₂_map_left_iff, List.forall₂_same]
    intro key hkey
    have hmem : key.expr ∈ q.roots := List.mem_append_right _ (List.mem_map_of_mem hkey)
    exact SortKey.reads (hroots key.expr hmem) k
  have hlimit (r : Nat) : Reads (Json.Reader.option Json.Reader.uint64) r
      (.optional (fun n => .nat n.toNat) q.limit) q.limit := by
    cases q.limit with
    | none => exact Reads.none _ r
    | some n => exact Reads.some Json.noConfusion (Reads.uint64 r n)
  have hfinish : format.finish ⟨some q.select, some q.having, some q.orderBy, some q.limit⟩
      = .ok q := by
    simp [format, Json.required, bind, Except.bind, pure, Except.pure]
  refine Reads.record hfinish fun r _ => ?_
  refine Fills.cons rfl rfl ((hselect r).map _) ?_
  refine Fills.cons rfl rfl ((hhaving r).map _) ?_
  refine Fills.cons rfl rfl ((horderBy r).map _) ?_
  exact Fills.cons rfl rfl ((hlimit r).map _) (Fills.nil _ r _)

/-- What is written for a query without floating-point numbers is read back, or is malformed. -/
theorem ofText_text {q : Query} (h : q.floatFree = true) :
    Json.Reader.ofText reader q.toJson.text
      = if q.nest ≤ 127 then .ok q else .error (.fault .malformed) := by
  rw [← q.nesting_toJson]
  exact (reads h Json.maxNesting).ofText (wellFormed_toJson h)

end Query

/-! ## Texts -/

/-- **The text of an expression or a query without floating-point numbers is read back** if no more
    than 127 of its brackets are open at once, and is malformed otherwise. -/
theorem ofText_toJson_text :
    (∀ e : Expr, e.toJson.nesting = e.nest ∧ (e.floatFree = true →
      Json.Reader.ofText Expr.reader e.toJson.text
        = if e.nest ≤ 127 then .ok e else .error (.fault .malformed))) ∧
    (∀ q : Query, q.toJson.nesting = q.nest ∧ (q.floatFree = true →
      Json.Reader.ofText Query.reader q.toJson.text
        = if q.nest ≤ 127 then .ok q else .error (.fault .malformed))) := by
  refine ⟨fun e => ⟨e.nesting_toJson, fun h => ?_⟩, fun q => ⟨q.nesting_toJson, fun h => ?_⟩⟩
  · rw [← e.nesting_toJson]
    exact (Expr.reads h Json.maxNesting).ofText (Expr.wellFormed_toJson h)
  · rw [← q.nesting_toJson]
    exact (Query.reads h Json.maxNesting).ofText (Query.wellFormed_toJson h)

/-- A column inside of some calls. -/
def Expr.nested : Nat → Expr
  | 0 => .identifier "city"
  | n + 1 => .call "lower" [nested n]

theorem Expr.nest_nested (n : Nat) : (nested n).nest = 3 * n + 1 := by
  induction n with
  | zero => rfl
  | succ n ih =>
    rw [nested, nest, fold_call]
    show 3 + max (nested n).nest 0 = _
    omega

theorem Expr.floatFree_nested (n : Nat) : (nested n).floatFree = true := by
  induction n with
  | zero => rfl
  | succ n ih => simpa [nested, floatFree_call] using ih

/-- A query that selects a column inside of some calls, with a text that has to be escaped and with
    numbers at the ends of their ranges. -/
def Query.nested (n : Nat) : Query where
  select := [.nested n, .literal (.string "\"Zürich\"\n\\")]
  having := some (.literal (.int Int64.minValue))
  limit := some 0xFFFFFFFFFFFFFFFF

/-- Forty-two calls can be inside of one another, but only forty-one of what a query selects. -/
theorem ofText_toJson_text_nested :
    Json.Reader.ofText Expr.reader (Expr.nested 42).toJson.text = .ok (.nested 42) ∧
    Json.Reader.ofText Expr.reader (Expr.nested 43).toJson.text = .error (.fault .malformed) ∧
    Json.Reader.ofText Query.reader (Query.nested 41).toJson.text = .ok (.nested 41) ∧
    Json.Reader.ofText Query.reader (Query.nested 42).toJson.text
      = .error (.fault .malformed) := by
  obtain ⟨hexpr, hquery⟩ := ofText_toJson_text
  refine ⟨?_, ?_, ?_, ?_⟩
  · rw [(hexpr (.nested 42)).2 (Expr.floatFree_nested 42), Expr.nest_nested, if_pos (by decide)]
  · rw [(hexpr (.nested 43)).2 (Expr.floatFree_nested 43), Expr.nest_nested, if_neg (by decide)]
  · rw [(hquery (.nested 41)).2 (by decide +kernel), if_pos (by decide +kernel)]
  · rw [(hquery (.nested 42)).2 (by decide +kernel), if_neg (by decide +kernel)]

end QueryTuning
