import Mathlib.Tactic.FinCases
import QueryTuning.Proofs.Json.Rearranged
import QueryTuning.Schema.Layout

/-!
# What layouts are read from

A layout is read from a document that has its parts: a name, and up to three lists with a document
for each column. Neither the order of the members nor what else there is makes a difference.

* `Spells`, `DataType.Names` : the documents that a flag or a data type is read from.
* `LayoutColumn.Describes`, `Layout.Describes` : the documents that a column or a layout is read
  from.
* `LayoutColumn.reader_eq_ok_iff`, `Layout.reader_eq_ok_iff` : it is read from these and no others.
* `Layout.Rearranged` : the same layout in another order.
* `Layout.exists_of_rearranged` : it is read as the same columns, each list in its order.
-/

namespace QueryTuning

open Json (Doc Field Lawful)
open Json.Field (shows_of apart_of)

/-! ## Flags -/

/-- A text in small letters. -/
def lowered (text : String) : String := String.ofList (text.toList.map Char.toLower)

/-- A document **spells** a truth value if it is the value, or a text that names the value in
    whatever case. -/
inductive Spells : Doc → Bool → Prop
  /-- The value itself. -/
  | value (b : Bool) : Spells (.bool b) b
  /-- The name of the value. -/
  | name {q : Json.Quoted} {text : String} (b : Bool) (hread : q.read = .ok text)
      (hname : lowered text = if b then "true" else "false") : Spells (.string q) b

/-- The truth value of a text is the one that it names. -/
theorem flagOfText_eq_ok_iff {text : String} {b : Bool} :
    flagOfText text = .ok b ↔ lowered text = if b then "true" else "false" := by
  show (if lowered text = "true" then .ok true
    else if lowered text = "false" then .ok false
    else Json.refuse (.flagText (lowered text))) = .ok b ↔ _
  split
  · rename_i htrue
    rw [htrue]
    cases b <;> simp
  · rename_i htrue
    split
    · rename_i hfalse
      rw [hfalse]
      cases b <;> simp
    · rename_i hfalse
      cases b <;> simp [Json.refuse, htrue, hfalse]

/-- **A flag is read from what spells it.** -/
theorem flagReader_eq_ok_iff {room : Nat} {d : Doc} {b : Bool} :
    flagReader room d = .ok b ↔ Spells d b := by
  constructor
  · intro h
    obtain ⟨_, -, h⟩ := exists_of_bind_eq_ok h
    cases d with
    | bool c =>
      obtain rfl := Except.ok.inj h
      exact .value c
    | string q =>
      obtain ⟨text, htext, h⟩ := exists_of_bind_eq_ok h
      exact .name b (Json.readQuoted_eq_ok_iff.mp htext) (flagOfText_eq_ok_iff.mp h)
    | _ => cases h
  · rintro (b | ⟨b, hread, hname⟩)
    · rfl
    · simp only [flagReader, Doc.strictFault?, Doc.fault?, hread, Json.checkFault, Json.readQuoted]
      exact flagOfText_eq_ok_iff.mpr hname

/-- A document spells one truth value at most. -/
theorem Spells.unique {d : Doc} {b c : Bool} (hb : Spells d b) (hc : Spells d c) : b = c := by
  have hread : flagReader 0 d = .ok b := flagReader_eq_ok_iff.mpr hb
  exact Except.ok.inj (hread.symm.trans (flagReader_eq_ok_iff.mpr hc))

/-! ## Data types -/

namespace DataType

/-- What the data types are called in a layout. -/
def spellings : List (String × DataType) :=
  [("INT", .int), ("LONG", .long), ("FLOAT", .float), ("DOUBLE", .double),
   ("BIG_DECIMAL", .bigDecimal), ("BOOLEAN", .boolean), ("TIMESTAMP", .timestamp),
   ("STRING", .string), ("JSON", .json), ("BYTES", .bytes)]

/-- A document **names a data type** if it is what the type is called, or an object with that as its
    only name and null behind it. The object takes a bracket of its own. -/
def Names (room : Nat) (d : Doc) (t : DataType) : Prop :=
  ∃ q name, q.read = .ok name ∧ (name, t) ∈ spellings ∧
    (d = .string q ∨ 0 < room ∧ d = .object [(q, .null)] none)

theorem mem_spellings_iff {name : String} {t : DataType} :
    (name, t) ∈ spellings ↔ name = t.name := by
  cases t <;> simp [spellings, DataType.name]

/-- **A data type is read from what names it.** -/
theorem reader_eq_ok_iff {room : Nat} {d : Doc} {t : DataType} :
    reader room d = .ok t ↔ Names room d t := by
  have hall : t ∈ all := by cases t <;> decide
  rw [reader, Json.Variant.reader_map_bare_eq_ok_iff (by decide), and_iff_right hall]
  simp [Names, mem_spellings_iff]

end DataType

/-! ## Columns -/

namespace LayoutColumn

/-- The names of the fields of a column. -/
def names : List String := format.fields.map Field.name

/-- The fields of a column have components of their own. -/
theorem lawful : Lawful format.fields := by
  refine .cons (shows_of fun _ _ => rfl) ?_ <| .cons (shows_of fun _ _ => rfl) ?_ <|
    .cons (shows_of fun _ _ => rfl) ?_ .nil
  all_goals
    intro field hfield
    fin_cases hfield
  all_goals exact apart_of (by decide) (fun _ _ => rfl) (fun _ _ => rfl) fun _ _ _ => rfl

/-- **A document describes a column** if it has the form of one and its parts are the name, the type
    and the flag of the column. Without a flag the column holds one value in a row. -/
structure Describes (room : Nat) (d : Doc) (c : LayoutColumn) : Prop where
  /-- The document has the form of a column. -/
  admits : format.Admits d
  /-- One part is the name. -/
  name : ∃ q, d.part? names "name" = some (.string q) ∧ q.read = .ok c.name
  /-- One part is the type of the values. -/
  dataType : ∃ x, d.part? names "dataType" = some x ∧ DataType.Names room x c.dataType
  /-- One part may be the flag. -/
  singleValued : (d.part? names "singleValueField" = none ∧ c.singleValued = true) ∨
    ∃ x, d.part? names "singleValueField" = some x ∧ Spells x c.singleValued

/-- A draft of a column is filled in from the parts of its fields. -/
theorem fill_eq_ok_iff {room : Nat} {part? : String → Option Doc} {full : Draft} :
    Json.Record.fill format.fields room part? format.start = .ok full ↔
      (part? "name").mapM (Json.Reader.string room) = .ok full.name ∧
      (part? "dataType").mapM (DataType.reader room) = .ok full.dataType ∧
      (part? "singleValueField").mapM (flagReader room) = .ok full.singleValued := by
  simp only [format, Json.Record.fill_of_eq_ok_iff, Json.Record.fill_nil, Except.ok.injEq]
  constructor
  · rintro ⟨name, hname, dataType, hdataType, flag, hflag, rfl⟩
    cases name <;> cases dataType <;> cases flag <;> exact ⟨hname, hdataType, hflag⟩
  · rintro ⟨hname, hdataType, hflag⟩
    refine ⟨_, hname, _, hdataType, _, hflag, ?_⟩
    obtain ⟨name, dataType, flag⟩ := full
    cases name <;> cases dataType <;> cases flag <;> rfl

/-- A column is made of a draft with a name and a type. -/
theorem finish_eq_ok_iff {full : Draft} {c : LayoutColumn} :
    format.finish full = .ok c ↔ full.name = some c.name ∧ full.dataType = some c.dataType ∧
      full.singleValued.getD true = c.singleValued := by
  constructor
  · intro h
    obtain ⟨name, hname, h⟩ := exists_of_bind_eq_ok h
    obtain ⟨dataType, hdataType, h⟩ := exists_of_bind_eq_ok h
    obtain rfl := Except.ok.inj h
    exact ⟨Json.required_eq_ok_iff.mp hname, Json.required_eq_ok_iff.mp hdataType, rfl⟩
  · rintro ⟨hname, hdataType, hflag⟩
    simp only [format, hname, hdataType, hflag, Json.required]
    rfl

/-- A column is read part by part. -/
theorem reader_eq_ok_iff_parts {room : Nat} {d : Doc} {c : LayoutColumn} :
    reader (room + 1) d = .ok c ↔ format.Admits d ∧
      (d.part? names "name").mapM (Json.Reader.string room) = .ok (some c.name) ∧
      (d.part? names "dataType").mapM (DataType.reader room) = .ok (some c.dataType) ∧
      ∃ b?, (d.part? names "singleValueField").mapM (flagReader room) = .ok b? ∧
        b?.getD true = c.singleValued := by
  rw [reader, Json.Record.reader_eq_ok_iff lawful]
  constructor
  · rintro ⟨r, hr, hadmits, full, hfull, hfinish⟩
    obtain rfl : room = r := Nat.succ.inj hr
    obtain ⟨hname, hdataType, hflag⟩ := fill_eq_ok_iff.mp hfull
    obtain ⟨hfullName, hfullType, hfullFlag⟩ := finish_eq_ok_iff.mp hfinish
    exact ⟨hadmits, hfullName ▸ hname, hfullType ▸ hdataType, _, hflag, hfullFlag⟩
  · rintro ⟨hadmits, hname, hdataType, b?, hflag, hb⟩
    exact ⟨room, rfl, hadmits, ⟨some c.name, some c.dataType, b?⟩,
      fill_eq_ok_iff.mpr ⟨hname, hdataType, hflag⟩, finish_eq_ok_iff.mpr ⟨rfl, rfl, hb⟩⟩

/-- **A column is read from the documents that describe it.** -/
theorem reader_eq_ok_iff {room : Nat} {d : Doc} {c : LayoutColumn} :
    reader (room + 1) d = .ok c ↔ Describes room d c := by
  rw [reader_eq_ok_iff_parts, Json.mapM_eq_ok_some_iff, Json.mapM_eq_ok_some_iff,
    Json.exists_mapM_getD_iff]
  simp only [flagReader_eq_ok_iff, DataType.reader_eq_ok_iff]
  constructor
  · rintro ⟨hadmits, ⟨x, hx, hname⟩, hdataType, hflag⟩
    obtain ⟨q, rfl, hq⟩ := Json.Reader.string_eq_ok_iff.mp hname
    exact ⟨hadmits, ⟨q, hx, hq⟩, hdataType, hflag⟩
  · rintro ⟨hadmits, ⟨q, hx, hq⟩, hdataType, hflag⟩
    exact ⟨hadmits, ⟨_, hx, Json.Reader.string_eq_ok_iff.mpr ⟨q, rfl, hq⟩⟩, hdataType, hflag⟩

end LayoutColumn

/-! ## Layouts -/

namespace ColumnKind

/-- The name of the list of the columns of a role. -/
def listName : ColumnKind → String
  | dimension => "dimensionFieldSpecs"
  | metric => "metricFieldSpecs"
  | dateTime => "dateTimeFieldSpecs"

end ColumnKind

namespace Layout

/-- The columns of a role. -/
def list (l : Layout) : ColumnKind → List LayoutColumn
  | .dimension => l.dimensions
  | .metric => l.metrics
  | .dateTime => l.dateTimes

/-- The columns of a role, in a draft. -/
def Draft.list? (draft : Draft) : ColumnKind → Option (List LayoutColumn)
  | .dimension => draft.dimensions
  | .metric => draft.metrics
  | .dateTime => draft.dateTimes

/-- The names of the fields of a layout. -/
def names : List String := format.fields.map Field.name

/-- The fields of a layout have components of their own. -/
theorem lawful : Lawful format.fields := by
  refine .cons (shows_of fun _ _ => rfl) ?_ <| .cons (shows_of fun _ _ => rfl) ?_ <|
    .cons (shows_of fun _ _ => rfl) ?_ <| .cons (shows_of fun _ _ => rfl) ?_ .nil
  all_goals
    intro field hfield
    fin_cases hfield
  all_goals exact apart_of (by decide) (fun _ _ => rfl) (fun _ _ => rfl) fun _ _ _ => rfl

/-- A draft of a layout is filled in from the parts of its fields. -/
theorem fill_eq_ok_iff {room : Nat} {part? : String → Option Doc} {full : Draft} :
    Json.Record.fill format.fields room part? format.start = .ok full ↔
      (part? "schemaName").mapM (Json.Reader.string room) = .ok full.name ∧
      ∀ kind : ColumnKind, (part? kind.listName).mapM (Json.Reader.list LayoutColumn.reader room)
        = .ok (full.list? kind) := by
  simp only [format, Json.Record.fill_of_eq_ok_iff, Json.Record.fill_nil, Except.ok.injEq]
  constructor
  · rintro ⟨name, hname, dims, hdims, mets, hmets, times, htimes, rfl⟩
    refine ⟨?_, fun kind => ?_⟩
    · cases name <;> cases dims <;> cases mets <;> cases times <;> exact hname
    · cases kind <;> cases name <;> cases dims <;> cases mets <;> cases times <;> assumption
  · rintro ⟨hname, hlists⟩
    refine ⟨_, hname, _, hlists .dimension, _, hlists .metric, _, hlists .dateTime, ?_⟩
    obtain ⟨name, dims, mets, times⟩ := full
    cases name <;> cases dims <;> cases mets <;> cases times <;> rfl

/-- A layout is made of a draft with a name. Lists that are not there are empty. -/
theorem finish_eq_ok_iff {full : Draft} {l : Layout} :
    format.finish full = .ok l ↔
      full.name = some l.name ∧ ∀ kind, (full.list? kind).getD [] = l.list kind := by
  constructor
  · intro h
    obtain ⟨name, hname, h⟩ := exists_of_bind_eq_ok h
    obtain rfl := Except.ok.inj h
    exact ⟨Json.required_eq_ok_iff.mp hname, fun kind => by cases kind <;> rfl⟩
  · rintro ⟨hname, hlists⟩
    obtain ⟨name, dims, mets, times⟩ := l
    obtain rfl : full.dimensions.getD [] = dims := hlists .dimension
    obtain rfl : full.metrics.getD [] = mets := hlists .metric
    obtain rfl : full.dateTimes.getD [] = times := hlists .dateTime
    simp only [format, hname, Json.required]
    rfl

/-- A layout is read part by part. -/
theorem reader_eq_ok_iff_parts {room : Nat} {d : Doc} {l : Layout} :
    reader (room + 1) d = .ok l ↔ format.Admits d ∧
      (d.part? names "schemaName").mapM (Json.Reader.string room) = .ok (some l.name) ∧
      ∀ kind : ColumnKind, ∃ cs?, (d.part? names kind.listName).mapM
        (Json.Reader.list LayoutColumn.reader room) = .ok cs? ∧ cs?.getD [] = l.list kind := by
  rw [reader, Json.Record.reader_eq_ok_iff lawful]
  constructor
  · rintro ⟨r, hr, hadmits, full, hfull, hfinish⟩
    obtain rfl : room = r := Nat.succ.inj hr
    obtain ⟨hname, hlists⟩ := fill_eq_ok_iff.mp hfull
    obtain ⟨hfullName, hfullLists⟩ := finish_eq_ok_iff.mp hfinish
    exact ⟨hadmits, hfullName ▸ hname, fun kind => ⟨_, hlists kind, hfullLists kind⟩⟩
  · rintro ⟨hadmits, hname, hlists⟩
    obtain ⟨dims, hdims, hdimsList⟩ := hlists .dimension
    obtain ⟨mets, hmets, hmetsList⟩ := hlists .metric
    obtain ⟨times, htimes, htimesList⟩ := hlists .dateTime
    refine ⟨room, rfl, hadmits, ⟨some l.name, dims, mets, times⟩, fill_eq_ok_iff.mpr ⟨hname, ?_⟩,
      finish_eq_ok_iff.mpr ⟨rfl, ?_⟩⟩
    · intro kind
      cases kind <;> assumption
    · intro kind
      cases kind <;> assumption

/-- The documents that a list of a layout holds for its columns; none if the list is left out. -/
def columnDocs (d : Doc) (kind : ColumnKind) : List Doc :=
  match d.part? names kind.listName with
  | some (.array ds _) => ds
  | _ => []

/-- **A document describes a layout** if it has the form of one, one part is the name, and each list
    that is there has a document for each of its columns. A list that is left out is empty. -/
structure Describes (room : Nat) (d : Doc) (l : Layout) : Prop where
  /-- The document has the form of a layout. -/
  admits : format.Admits d
  /-- One part is the name. -/
  name : ∃ q, d.part? names "schemaName" = some (.string q) ∧ q.read = .ok l.name
  /-- A list is an array, unless it is left out. -/
  lists : ∀ kind : ColumnKind,
    d.part? names kind.listName = none ∨ ∃ ds, d.part? names kind.listName = some (.array ds none)
  /-- The documents of a list describe its columns one by one. -/
  columns : ∀ kind : ColumnKind,
    List.Forall₂ (LayoutColumn.Describes room) (columnDocs d kind) (l.list kind)

/-- The list of a role is read from an array of documents that describe its columns. -/
theorem list_eq_ok_iff {room : Nat} {d : Doc} {kind : ColumnKind} {cs : List LayoutColumn} :
    (∃ cs?, (d.part? names kind.listName).mapM (Json.Reader.list LayoutColumn.reader (room + 2))
      = .ok cs? ∧ cs?.getD [] = cs) ↔
    (d.part? names kind.listName = none ∨
      ∃ ds, d.part? names kind.listName = some (.array ds none)) ∧
      List.Forall₂ (LayoutColumn.Describes room) (columnDocs d kind) cs := by
  have hread {x : Doc} : Json.Reader.list LayoutColumn.reader (room + 2) x = .ok cs ↔
      ∃ ds, x = .array ds none ∧ List.Forall₂ (LayoutColumn.Describes room) ds cs := by
    simp [Json.Reader.list_eq_ok_iff, LayoutColumn.reader_eq_ok_iff]
  rw [Json.exists_mapM_getD_iff]
  constructor
  · rintro (⟨hpart, rfl⟩ | ⟨x, hpart, hx⟩)
    · refine ⟨.inl hpart, ?_⟩
      rw [columnDocs, hpart]
      exact .nil
    · obtain ⟨ds, rfl, hcolumns⟩ := hread.mp hx
      refine ⟨.inr ⟨ds, hpart⟩, ?_⟩
      rw [columnDocs, hpart]
      exact hcolumns
  · rintro ⟨hpart | ⟨ds, hpart⟩, hcolumns⟩
    · rw [columnDocs, hpart, List.forall₂_nil_left_iff] at hcolumns
      exact .inl ⟨hpart, hcolumns⟩
    · rw [columnDocs, hpart] at hcolumns
      exact .inr ⟨_, hpart, hread.mpr ⟨ds, rfl, hcolumns⟩⟩

/-- **A layout is read from the documents that describe it.** -/
theorem reader_eq_ok_iff {room : Nat} {d : Doc} {l : Layout} :
    reader (room + 3) d = .ok l ↔ Describes room d l := by
  rw [reader_eq_ok_iff_parts]
  constructor
  · rintro ⟨hadmits, hname, hlists⟩
    obtain ⟨x, hx, hname⟩ := Json.mapM_eq_ok_some_iff.mp hname
    obtain ⟨q, rfl, hq⟩ := Json.Reader.string_eq_ok_iff.mp hname
    exact ⟨hadmits, ⟨q, hx, hq⟩, fun kind => (list_eq_ok_iff.mp (hlists kind)).1,
      fun kind => (list_eq_ok_iff.mp (hlists kind)).2⟩
  · rintro ⟨hadmits, ⟨q, hx, hq⟩, hlists, hcolumns⟩
    have hname : Json.Reader.string (room + 2) (.string q) = .ok l.name :=
      Json.Reader.string_eq_ok_iff.mpr ⟨q, rfl, hq⟩
    exact ⟨hadmits, Json.mapM_eq_ok_some_iff.mpr ⟨_, hx, hname⟩,
      fun kind => list_eq_ok_iff.mpr ⟨hlists kind, hcolumns kind⟩⟩

/-! ## Other orders -/

/-- **The same layout in another order**: the members of the layout and of its columns stand in any
    order with any strays among them, and the columns of each list stand in any order. -/
def Rearranged : Doc → Doc → Prop :=
  Doc.Rearranged names (Doc.Shuffled (Doc.Rearranged LayoutColumn.names Eq))

/-- **A rearranged layout is read as the same columns**, each list in its own order. -/
theorem exists_of_rearranged {room : Nat} {d d' : Doc} {l : Layout}
    (h : reader (room + 1) d = .ok l) (hd : Rearranged d d') :
    ∃ l', reader (room + 1) d' = .ok l' ∧ l'.name = l.name ∧
      ∀ kind, (l'.list kind).Perm (l.list kind) := by
  obtain ⟨hadmits, hname, hlists⟩ := reader_eq_ok_iff_parts.mp h
  -- Columns are read as before wherever they stand, so the lists are the same up to their order.
  have hcolumn (r : Nat) (d d' : Doc) (c : LayoutColumn)
      (hd : Doc.Rearranged LayoutColumn.names Eq d d') (hc : LayoutColumn.reader r d = .ok c) :
      LayoutColumn.reader r d' = .ok c :=
    Json.Record.reader_of_rearranged LayoutColumn.lawful
      (fun _ _ _ d d' _ (hsame : d = d') hupdate => hsame ▸ hupdate) hc hd
  have hlist (kind : ColumnKind) : ∃ cs?, (d'.part? names kind.listName).mapM
      (Json.Reader.list LayoutColumn.reader room) = .ok cs? ∧ (cs?.getD []).Perm (l.list kind) := by
    have hmem : kind.listName ∈ names := by
      cases kind <;> simp [names, format, ColumnKind.listName, Field.of]
    obtain ⟨cs?, hcs, hlist⟩ := hlists kind
    rw [← hlist]
    exact Json.Reader.exists_mapM_of_shuffled hcolumn hcs (hadmits.part?_rearranged hd hmem)
  have hname' := Json.Reader.mapM_string_of_shuffled hname
    (hadmits.part?_rearranged hd List.mem_cons_self)
  obtain ⟨dims, hdims, hdimsPerm⟩ := hlist .dimension
  obtain ⟨mets, hmets, hmetsPerm⟩ := hlist .metric
  obtain ⟨times, htimes, htimesPerm⟩ := hlist .dateTime
  refine ⟨⟨l.name, dims.getD [], mets.getD [], times.getD []⟩, reader_eq_ok_iff_parts.mpr
    ⟨hadmits.rearranged hd, hname', ?_⟩, rfl, ?_⟩
  · intro kind
    cases kind
    · exact ⟨dims, hdims, rfl⟩
    · exact ⟨mets, hmets, rfl⟩
    · exact ⟨times, htimes, rfl⟩
  · intro kind
    cases kind <;> assumption

end Layout

end QueryTuning
