import QueryTuning.Proofs.Json.Reads
import QueryTuning.Proofs.Schema.Declared
import QueryTuning.Proofs.Text.Utf8
import QueryTuning.Schema.Json

/-!
# Schemas and their text

The text of a schema has the columns in the order of the bytes of the names that they are looked
up by, and it is read back as the schema. So a schema has only one text, however its columns were
declared.

* `Schema.Lists` : entries that tell what a schema declares.
* `Schema.reads` : the reader of schemas reads them back.
* `Schema.addAll_canonical` : what stays of columns that are declared one after another, and what
  the text of a schema tells.
-/

namespace QueryTuning

open Json (Reads Fills)

/-! ## Columns -/

/-- A data type is read back. -/
theorem DataType.reads (t : DataType) (room : Nat) : Reads reader room t.toJson t := by
  cases t <;> exact Reads.bareName rfl room

/-- A role is read back. -/
theorem ColumnKind.reads (k : ColumnKind) (room : Nat) : Reads reader room k.toJson k := by
  cases k <;> exact Reads.bareName rfl room

namespace Column

/-- **A column is read back.** -/
theorem reads (c : Column) (room : Nat) : Reads reader room c.toJson c := by
  have hfinish : format.finish ⟨some c.name, some c.dataType, some c.singleValued, some c.kind⟩
      = .ok c := rfl
  refine Reads.record hfinish fun r _ => ?_
  refine Fills.cons rfl rfl ((Reads.string r c.name).map _) ?_
  refine Fills.cons rfl rfl ((c.dataType.reads r).map _) ?_
  refine Fills.cons rfl rfl ((Reads.bool r c.singleValued).map _) ?_
  exact Fills.cons rfl rfl ((c.kind.reads r).map _) (Fills.nil _ r _)

/-- The text of a column has a bracket of its own and none inside. -/
theorem nesting_toJson (c : Column) : c.toJson.nesting = 1 := by
  obtain ⟨name, dataType, singleValued, kind⟩ := c
  cases kind <;> rfl

/-- A column has no numerals at all. -/
theorem wellFormed_toJson (c : Column) : c.toJson.WellFormed := by
  obtain ⟨name, dataType, singleValued, kind⟩ := c
  cases kind <;> exact ⟨trivial, trivial, trivial, trivial, trivial⟩

end Column

namespace Schema

/-- **A schema is read back**, whatever the names that its columns are looked up by. -/
theorem reads (s : Schema) (room : Nat) : Reads reader room s.toJson s := by
  have hfinish : format.finish ⟨some s.name, some s.columns⟩ = .ok s := rfl
  have hcolumns (r : Nat) : Reads (Json.Reader.map Column.reader) r
      (.object (s.columns.toList.map fun p => (p.1, p.2.toJson))) s.columns :=
    Reads.object fun k _ p _ => p.2.reads k
  refine Reads.record hfinish fun r _ => ?_
  refine Fills.cons rfl rfl ((Reads.string r s.name).map _) ?_
  exact Fills.cons rfl rfl ((hcolumns r).map _) (Fills.nil _ r _)

/-- The text of a schema has brackets around the columns, and these around all brackets of a
    column. -/
theorem nesting_toJson_le (s : Schema) : s.toJson.nesting ≤ 3 := by
  have hcolumns : Json.membersNesting (s.columns.toList.map fun p => (p.1, p.2.toJson)) ≤ 1 := by
    rw [Json.membersNesting_le_iff, List.forall_mem_map]
    exact fun p _ => p.2.nesting_toJson.le
  show 1 + max 0 (max (1 + Json.membersNesting (s.columns.toList.map fun p => (p.1, p.2.toJson))) 0)
    ≤ 3
  omega

/-- A schema has no numerals at all. -/
theorem wellFormed_toJson (s : Schema) : s.toJson.WellFormed := by
  refine ⟨trivial, ?_, trivial⟩
  rw [Json.WellFormed, Json.membersWellFormed_iff, List.forall_mem_map]
  exact fun p _ => p.2.wellFormed_toJson

/-- **The text of a schema is read back.** -/
theorem ofText_text (s : Schema) : Json.Reader.ofText reader s.toJson.text = .ok s := by
  have hroom : s.toJson.nesting ≤ Json.maxNesting := s.nesting_toJson_le.trans (by decide)
  rw [(reads s Json.maxNesting).ofText s.wellFormed_toJson, if_pos hroom]

/-- Schemas with one text are the same. -/
theorem eq_of_text_eq {s t : Schema} (h : s.toJson.text = t.toJson.text) : s = t := by
  have hread := s.ofText_text
  rw [h, t.ofText_text] at hread
  exact (Except.ok.inj hread).symm

/-! ## The order of the columns -/

/-- Entries **list** what a schema declares if they tell the column under each name, in the order
    of the bytes of the names. -/
structure Lists (s : Schema) (entries : List (String × Column)) : Prop where
  /-- The entries are what the schema declares. -/
  mem_iff : ∀ x c, (x, c) ∈ entries ↔ s.column? x = some c
  /-- The names stand in the order of their bytes, none of them twice. -/
  sorted : entries.Pairwise fun p q => Text.bytes p.1 < Text.bytes q.1

/-- What a schema declares is kept in the order of the bytes of the names. -/
theorem lists_toList (s : Schema) : s.Lists s.columns.toList where
  mem_iff _ _ := Std.ExtTreeMap.mem_toList_iff_getElem?_eq_some
  sorted := by
    have hlt {x y : String} (h : compare x y = .lt) : Text.bytes x < Text.bytes y :=
      Text.bytes_lt_iff.mpr (compareOfLessAndEq_eq_lt.mp h)
    exact Std.ExtTreeMap.ordered_keys_toList.imp hlt

/-- **Schemas are canonical.** Of columns that are declared one after another the last one of each
    name stays, under this name, and there are as many columns as names. Where the last columns of
    all names agree, the schemas are the same and so are their texts. The text of a schema has its
    columns in the order of the bytes of the names and is read back as the schema, so schemas with
    one text are the same. -/
theorem addAll_canonical :
    (∀ (n : String) (cs : List Column),
      (addAll { name := n } cs).name = n ∧
      (∀ x, (addAll { name := n } cs).column? x = lastNamed cs x) ∧
      (∀ x c, (addAll { name := n } cs).column? x = some c → c.name = x) ∧
      (addAll { name := n } cs).size = (cs.map Column.name).toFinset.card) ∧
    (∀ (n : String) (cs ds : List Column), (∀ x, lastNamed cs x = lastNamed ds x) →
      addAll { name := n } cs = addAll { name := n } ds ∧
      (addAll { name := n } cs).toJson.text = (addAll { name := n } ds).toJson.text) ∧
    (∀ s : Schema, ∃ entries, s.Lists entries ∧
      s.toJson = .object
        [("schema_name", .string s.name),
         ("fields", .object (entries.map fun (x, c) => (x, c.toJson)))]) ∧
    (∀ s : Schema, Json.Reader.ofText reader s.toJson.text = .ok s) ∧
    (∀ s t : Schema, s.toJson.text = t.toJson.text → s = t) := by
  refine ⟨fun n cs => ⟨name_addAll _ cs, column?_addAll_empty n cs, fun x c hc => ?_,
    size_addAll n cs⟩, fun n cs ds h => ?_, fun s => ⟨_, s.lists_toList, rfl⟩, ofText_text,
    fun s t => eq_of_text_eq⟩
  · rw [column?_addAll_empty] at hc
    exact (lastNamed_eq_some hc).2
  · have hsame := addAll_eq_addAll h { name := n }
    exact ⟨hsame, by rw [hsame]⟩

/-- Columns of which one replaces another, with names whose characters take up from one to four
    bytes. -/
def replaced : List Column :=
  [.dimension "état" .string, .metric "z" .long, .dateTime "\uffff" .timestamp,
   .multiValued "état" .int, .dimension "😀" .json]

/-- The columns that stay, in another order and with another one that is replaced. -/
def reordered : List Column :=
  [.dimension "😀" .json, .metric "état" .double, .multiValued "état" .int,
   .dateTime "\uffff" .timestamp, .metric "z" .long]

/-- A schema with a column under a name that is not its own. -/
def misplaced : Schema where
  name := "\"t\"\n"
  columns := (∅ : Std.ExtTreeMap String Column).insert "key" (.metric "clicks" .long)

/-- The order of the columns and those that are replaced make no difference, and a column is kept
    under the name that it was found under, even if that is not its own. -/
theorem addAll_canonical_sample :
    (∀ x, lastNamed replaced x = lastNamed reordered x) ∧
    (addAll { name := "t" } replaced).toJson.text
      = (addAll { name := "t" } reordered).toJson.text ∧
    addAll { name := "t" } replaced = addAll { name := "t" } reordered ∧
    (addAll { name := "t" } replaced).column? "état" = some (.multiValued "état" .int) ∧
    (Column.multiValued "état" .int).name = "état" ∧
    (addAll { name := "t" } replaced).size = 4 ∧
    (addAll { name := "t" } replaced).columns.keys = ["z", "état", "\uffff", "😀"] ∧
    misplaced.column? "key" = some (.metric "clicks" .long) ∧
    Json.Reader.ofText reader misplaced.toJson.text = .ok misplaced := by
  obtain ⟨hbuilt, hsame, -, hread, heq⟩ := addAll_canonical
  obtain ⟨-, hcolumn, hname, hsize⟩ := hbuilt "t" replaced
  have hlast : ∀ x, lastNamed replaced x = lastNamed reordered x := by decide +kernel
  have htext := (hsame "t" replaced reordered hlast).2
  have hfound : (addAll { name := "t" } replaced).column? "état"
      = some (.multiValued "état" .int) := by
    rw [hcolumn]
    decide +kernel
  refine ⟨hlast, htext, heq _ _ htext, hfound, hname _ _ hfound, ?_, ?_, ?_, hread misplaced⟩
  · rw [hsize]
    decide +kernel
  · decide +kernel
  · decide +kernel

end Schema

end QueryTuning
