import QueryTuning.Proofs.Json.Reads
import QueryTuning.Proofs.Schema.Declared
import QueryTuning.Proofs.Schema.Layout

/-!
# Schemas that are made of layouts

A text that is no layout is refused for that reason. A layout in which a name is repeated is refused
for the first column that repeats one. From any other layout a schema is made that declares its
columns and nothing else, whatever the order in which they are given.

* `Layout.declared` : what a layout declares, column by column.
* `Schema.Declares` : a schema declares the columns of a layout.
* `Schema.ofLayout_eq_ok`, `Schema.ofLayout_of_repeated` : what is made of a layout.
* `Schema.ofJson_exact` : what is made of a text.
-/

namespace QueryTuning

open Json (Doc Document)

/-! ## Columns of a layout -/

/-- **What a layout declares**: dimensions first, then metrics, then points in time, each of them
    with its own name and type. Only a dimension may hold several values in a row. -/
def Layout.declared (l : Layout) : List Column :=
  (l.dimensions.map fun c =>
    { name := c.name, dataType := c.dataType, singleValued := c.singleValued, kind := .dimension })
  ++ (l.metrics.map fun c =>
    { name := c.name, dataType := c.dataType, singleValued := true, kind := .metric })
  ++ l.dateTimes.map fun c =>
    { name := c.name, dataType := c.dataType, singleValued := true, kind := .dateTime }

theorem Layout.columns_eq_declared (l : Layout) : l.columns = l.declared := rfl

/-- Several values are declared for a name if some dimension says so, whatever is said of other
    columns. -/
theorem Layout.exists_mem_declared_multiple_iff {l : Layout} {x : String} :
    (∃ col ∈ l.declared, col.name = x ∧ col.singleValued = false) ↔
      ∃ c ∈ l.dimensions, c.name = x ∧ c.singleValued = false := by
  simp [declared, or_and_right, exists_or]

/-- Layouts with the same columns in each list declare the same. -/
theorem Layout.declared_perm {l l' : Layout} (h : ∀ kind, (l'.list kind).Perm (l.list kind)) :
    l'.declared.Perm l.declared :=
  (((h .dimension).map _).append ((h .metric).map _)).append ((h .dateTime).map _)

/-- A document **declares several values** for a name if it has the name and spells out that a row
    may hold more than one value. -/
def LayoutColumn.SaysMultiple (d : Doc) (name : String) : Prop :=
  (∃ q, d.part? names "name" = some (.string q) ∧ q.read = .ok name) ∧
    ∃ x, d.part? names "singleValueField" = some x ∧ Spells x false

/-- A document declares several values for the column that it describes. -/
theorem LayoutColumn.Describes.saysMultiple_iff {room : Nat} {d : Doc} {c : LayoutColumn}
    (h : Describes room d c) {name : String} :
    SaysMultiple d name ↔ c.name = name ∧ c.singleValued = false := by
  obtain ⟨q, hq, hread⟩ := h.name
  constructor
  · rintro ⟨⟨q', hq', hread'⟩, x, hx, hspells⟩
    rw [hq] at hq'
    cases hq'
    refine ⟨Except.ok.inj (hread.symm.trans hread'), ?_⟩
    rcases h.singleValued with ⟨hnone, -⟩ | ⟨y, hy, hflag⟩
    · rw [hnone] at hx
      cases hx
    · rw [hy] at hx
      cases hx
      exact hflag.unique hspells
  · rintro ⟨rfl, hfalse⟩
    refine ⟨⟨q, hq, hread⟩, ?_⟩
    rcases h.singleValued with ⟨-, htrue⟩ | ⟨y, hy, hflag⟩
    · rw [hfalse] at htrue
      cases htrue
    · exact ⟨y, hy, hfalse ▸ hflag⟩

/-- What a list says of a name is said by one of its documents. -/
theorem LayoutColumn.exists_saysMultiple_iff {room : Nat} {ds : List Doc} {cs : List LayoutColumn}
    (h : List.Forall₂ (Describes room) ds cs) {name : String} :
    (∃ d ∈ ds, SaysMultiple d name) ↔ ∃ c ∈ cs, c.name = name ∧ c.singleValued = false := by
  induction h with
  | nil => simp
  | cons hd _ ih => rw [List.exists_mem_cons_iff, List.exists_mem_cons_iff, hd.saysMultiple_iff, ih]

namespace Schema

/-- **A schema declares the columns of a layout.** -/
structure Declares (s : Schema) (l : Layout) : Prop where
  /-- The schema has the name of the layout. -/
  name : s.name = l.name
  /-- The names of the columns are declared, and no others. -/
  isSome_column?_iff : ∀ x, (s.column? x).isSome = true ↔ x ∈ l.declared.map Column.name
  /-- Each column is declared under its own name, as the layout declares it. -/
  column? : ∀ col ∈ l.declared, s.column? col.name = some col
  /-- The columns may be added to an empty schema in any order. -/
  eq_addAll : ∀ cs, cs.Perm l.declared → s = ({ name := l.name } : Schema).addAll cs

variable {l : Layout}

/-- The columns of a layout are new to a schema without columns if no name is repeated. -/
theorem new_columns {before : List Column} (h : (before.map Column.name).Nodup) (name : String) :
    ({ name } : Schema).New before :=
  ⟨h, fun _ _ => Std.ExtTreeMap.getElem?_empty⟩

/-- **A schema is made of a layout in which no name is repeated**, and declares its columns. -/
theorem ofLayout_eq_ok (h : (l.declared.map Column.name).Nodup) :
    ∃ s, ofLayout l = .ok s ∧ s.Declares l := by
  have hnew := new_columns h l.name
  have hcolumn {x : String} {col : Column} :
      (({ name := l.name } : Schema).addAll l.declared).column? x = some col ↔
        col ∈ l.declared ∧ col.name = x := by
    rw [column?_addAll_eq_some_iff hnew]
    exact or_iff_right fun hempty => by cases Std.ExtTreeMap.getElem?_empty.symm.trans hempty
  refine ⟨({ name := l.name } : Schema).addAll l.declared, ?_, ?_⟩
  · rw [ofLayout, Layout.columns_eq_declared]
    exact foldlM_addNew hnew
  · refine ⟨name_addAll _ _, fun x => ?_, fun col hcol => ?_, fun cs hcs => ?_⟩
    · rw [Option.isSome_iff_exists, List.mem_map]
      exact exists_congr fun col => hcolumn
    · exact hcolumn.mpr ⟨hcol, rfl⟩
    · exact addAll_perm h hcs.symm _

/-- **A layout in which a name is repeated is refused** for the first column that repeats one. -/
theorem ofLayout_of_repeated (h : ¬ (l.declared.map Column.name).Nodup) :
    ∃ before c after, l.declared = before ++ c :: after ∧ (before.map Column.name).Nodup ∧
      c.name ∈ before.map Column.name ∧
      ofLayout l = .error (.repeatedColumn c.name l.name) := by
  obtain ⟨before, c, after, hdeclared, hbefore, hc⟩ := exists_first_repeated h
  refine ⟨before, c, after, hdeclared, hbefore, hc, ?_⟩
  rw [ofLayout, Layout.columns_eq_declared, hdeclared]
  exact foldlM_addNew_of_repeated (new_columns hbefore l.name) hc

/-- The order of the columns in each list makes no difference. -/
theorem Declares.of_perm {s s' : Schema} {l' : Layout} (h : s.Declares l) (h' : s'.Declares l')
    (hname : l'.name = l.name) (hperm : l'.declared.Perm l.declared) : s' = s := by
  rw [h.eq_addAll _ hperm, h'.eq_addAll _ (.refl _), hname]

/-- A row may hold several values in a column that is declared that way. -/
theorem isMultiValued_iff_column? {s : Schema} {x : String} :
    s.isMultiValued x = true ↔ ∃ c, s.column? x = some c ∧ c.singleValued = false := by
  rw [isMultiValued, cardinality]
  cases s.column? x with
  | none => simp
  | some c => cases hc : c.singleValued <;> simp [Column.cardinality, hc]

/-- Several values are declared for a name if some dimension says so. -/
theorem Declares.isMultiValued_iff {s : Schema} (h : s.Declares l) {x : String} :
    s.isMultiValued x = true ↔ ∃ c ∈ l.dimensions, c.name = x ∧ c.singleValued = false := by
  rw [isMultiValued_iff_column?, ← Layout.exists_mem_declared_multiple_iff]
  constructor
  · rintro ⟨col, hcol, hmultiple⟩
    have hx := (h.isSome_column?_iff x).mp (Option.isSome_of_mem hcol)
    obtain ⟨col', hcol', rfl⟩ := List.mem_map.mp hx
    obtain rfl : col' = col := Option.some.inj ((h.column? col' hcol').symm.trans hcol)
    exact ⟨col', hcol', rfl, hmultiple⟩
  · rintro ⟨col, hcol, rfl, hmultiple⟩
    exact ⟨col, h.column? col hcol, hmultiple⟩

/-- **A schema is made of a text exactly as the layout in it says.**

    * A text is read as a layout if it describes the layout and nothing is wrong behind it; if it
      cannot be read, that is why it is refused, whatever else is wrong with the columns.
    * Of all columns (dimensions, then metrics, then points in time) none may repeat the name of one
      before it. The first one that does is the reason why the layout is refused.
    * Otherwise a schema is made that declares the columns of the layout. It declares several values
      for a name if the document of a dimension says so. Whatever the order of members and columns
      is, and whatever other members there are, the schema is the same. -/
theorem ofJson_exact (text : String) :
    (∀ e, Json.Reader.ofText Layout.reader text = .error e → ofJson text = .error (.json e)) ∧
    (∀ l, Json.Reader.ofText Layout.reader text = .ok l ↔
      Layout.Describes 124 (Document.ofText text).root l ∧ (Document.ofText text).ending = none) ∧
    ∀ l, Json.Reader.ofText Layout.reader text = .ok l →
      (¬ (l.declared.map Column.name).Nodup →
        ∃ before c after, l.declared = before ++ c :: after ∧ (before.map Column.name).Nodup ∧
          c.name ∈ before.map Column.name ∧
          ofJson text = .error (.repeatedColumn c.name l.name)) ∧
      ((l.declared.map Column.name).Nodup → ∃ s, ofJson text = .ok s ∧ s.Declares l ∧
        (∀ x, s.isMultiValued x = true ↔
          ∃ d ∈ Layout.columnDocs (Document.ofText text).root .dimension,
            LayoutColumn.SaysMultiple d x) ∧
        ∀ text', (Document.ofText text').ending = none →
          Layout.Rearranged (Document.ofText text).root (Document.ofText text').root →
          ofJson text' = .ok s) := by
  have hdescribes (text : String) (l : Layout) : Json.Reader.ofText Layout.reader text = .ok l ↔
      Layout.Describes 124 (Document.ofText text).root l ∧
        (Document.ofText text).ending = none := by
    -- Of the 127 brackets, the layout, a list in it and a column take one each.
    rw [Json.Reader.ofText_eq_ok_iff]
    exact and_congr_left' Layout.reader_eq_ok_iff
  have hofJson {text : String} {l : Layout} (h : Json.Reader.ofText Layout.reader text = .ok l) :
      ofJson text = ofLayout l := by
    rw [ofJson, h]
    rfl
  refine ⟨fun e he => by rw [ofJson, he]; rfl, hdescribes text,
    fun l hl => ⟨fun h => ?_, fun h => ?_⟩⟩
  · rw [hofJson hl]
    exact ofLayout_of_repeated h
  · obtain ⟨s, hs, hdeclares⟩ := ofLayout_eq_ok h
    refine ⟨s, (hofJson hl).trans hs, hdeclares, fun x => ?_, fun text' hending hrearranged => ?_⟩
    · rw [hdeclares.isMultiValued_iff]
      have hdimensions := ((hdescribes text l).mp hl).1.columns .dimension
      exact (LayoutColumn.exists_saysMultiple_iff hdimensions).symm
    · obtain ⟨l', hl', hname, hperm⟩ :=
        Layout.exists_of_rearranged (Json.Reader.ofText_eq_ok_iff.mp hl).1 hrearranged
      have hdeclared := Layout.declared_perm hperm
      have hread := Json.Reader.ofText_eq_ok_iff.mpr ⟨hl', hending⟩
      obtain ⟨s', hs', hdeclares'⟩ := ofLayout_eq_ok ((hdeclared.map Column.name).nodup_iff.mpr h)
      rw [hofJson hread, hs', hdeclares.of_perm hdeclares' hname hdeclared]

/-- A column in a text, with more members behind its name and type. -/
def sampleColumn (name dataType : String) (more : List (String × Json)) : Json :=
  .object ([("name", .string name), ("dataType", .string dataType)] ++ more)

/-- A layout in a text, with the metrics in front of the dimensions. -/
def sampleLayout (dimensions metrics dateTimes : List Json) : Json :=
  .object [("schemaName", .string "shop"), ("metricFieldSpecs", .array metrics),
    ("dimensionFieldSpecs", .array dimensions), ("dateTimeFieldSpecs", .array dateTimes)]

/-- The same layout in another order and with a member that layouts do not have. -/
def sampleRearranged (dimensions metrics dateTimes : List Json) : Json :=
  .object [("dimensionFieldSpecs", .array dimensions), ("dateTimeFieldSpecs", .array dateTimes),
    ("note", .array []), ("schemaName", .string "shop"), ("metricFieldSpecs", .array metrics)]

/-- Two dimensions change places, and one of them has one more member. -/
theorem rearranged_sample (metrics dateTimes : List Json) :
    let city := sampleColumn "city" "STRING"
    let tags := sampleColumn "tags" "STRING" [("singleValueField", .string "FALSE")]
    Layout.Rearranged (.ofJson (sampleLayout [city [], tags] metrics dateTimes))
      (.ofJson (sampleRearranged [tags, city [("note", .null)]] metrics dateTimes)) := by
  intro city tags
  have hcity : Doc.Rearranged LayoutColumn.names Eq (.ofJson (city []))
      (.ofJson (city [("note", .null)])) := .of_written (fun _ => rfl) (.refl _)
  have htags : Doc.Rearranged LayoutColumn.names Eq (.ofJson tags) (.ofJson tags) :=
    .of_written (fun _ => rfl) (.refl _)
  have hdimensions : Doc.Shuffled (Doc.Rearranged LayoutColumn.names Eq)
      (.ofJson (.array [city [], tags])) (.ofJson (.array [tags, city [("note", .null)]])) :=
    .array (.cons hcity (.cons htags .nil)) (.swap _ _ _)
  have hkept : List.Forall₂ (Json.Alike (Doc.Shuffled (Doc.Rearranged LayoutColumn.names Eq)))
      ((Doc.ofMembers [("schemaName", .string "shop"), ("metricFieldSpecs", .array metrics),
        ("dimensionFieldSpecs", .array [city [], tags]),
        ("dateTimeFieldSpecs", .array dateTimes)]).filter (Json.hasField Layout.names))
      (Doc.ofMembers [("schemaName", .string "shop"), ("metricFieldSpecs", .array metrics),
        ("dimensionFieldSpecs", .array [tags, city [("note", .null)]]),
        ("dateTimeFieldSpecs", .array dateTimes)]) := by
    rw [Doc.filter_hasField_ofMembers]
    exact .cons ⟨rfl, .refl _⟩ (.cons ⟨rfl, .refl _⟩
      (.cons ⟨rfl, hdimensions⟩ (.cons ⟨rfl, .refl _⟩ .nil)))
  have hnote : ∀ m ∈ [(Json.Quoted.ofString "note", Doc.array [] none)],
      Json.Stray Layout.names m :=
    List.forall_mem_singleton.mpr ⟨"note", Json.Quoted.read_ofString _, by decide, rfl⟩
  refine .object hkept hnote ?_
  show ([_, _, _] ++ [_, _]).Perm _
  exact List.perm_append_comm

/-- Four columns, the same in another order, columns of which the fourth one is the first to repeat
    a name, and no layout at all. -/
theorem ofJson_exact_sample :
    let city := sampleColumn "city" "STRING"
    let tags := sampleColumn "tags" "STRING" [("singleValueField", .string "FALSE")]
    let clicks := sampleColumn "clicks" "LONG" [("singleValueField", .bool false)]
    let day := sampleColumn "day" "TIMESTAMP" []
    (∃ s, ofJson (sampleLayout [city [], tags] [clicks] [day]).text = .ok s ∧
      ofJson (sampleRearranged [tags, city [("note", .null)]] [clicks] [day]).text = .ok s ∧
      s.name = "shop" ∧
      s.column? "city" = some ⟨"city", .string, true, .dimension⟩ ∧
      s.column? "tags" = some ⟨"tags", .string, false, .dimension⟩ ∧
      s.column? "clicks" = some ⟨"clicks", .long, true, .metric⟩ ∧
      s.column? "day" = some ⟨"day", .timestamp, true, .dateTime⟩ ∧
      s.column? "note" = none ∧
      s.isMultiValued "tags" = true ∧ s.isMultiValued "clicks" = false) ∧
    ofJson (sampleLayout [city [], tags] [clicks, tags] [clicks]).text
      = .error (.repeatedColumn "tags" "shop") ∧
    ∃ e, ofJson (Json.array [tags, tags]).text = .error (.json e) := by
  intro city tags clicks day
  have hcity : (city []).WellFormed := ⟨trivial, trivial, trivial⟩
  have hcity' : (city [("note", .null)]).WellFormed := ⟨trivial, trivial, trivial, trivial⟩
  have htags : tags.WellFormed := ⟨trivial, trivial, trivial, trivial⟩
  have hclicks : clicks.WellFormed := ⟨trivial, trivial, trivial, trivial⟩
  have hday : day.WellFormed := ⟨trivial, trivial, trivial⟩
  refine ⟨?_, ?_, ?_⟩
  · let l : Layout :=
      { name := "shop", dimensions := [⟨"city", .string, true⟩, ⟨"tags", .string, false⟩],
        metrics := [⟨"clicks", .long, false⟩], dateTimes := [⟨"day", .timestamp, true⟩] }
    have hwell : (sampleLayout [city [], tags] [clicks] [day]).WellFormed :=
      ⟨trivial, ⟨hclicks, trivial⟩, ⟨hcity, htags, trivial⟩, ⟨hday, trivial⟩, trivial⟩
    have hwell' : (sampleRearranged [tags, city [("note", .null)]] [clicks] [day]).WellFormed :=
      ⟨⟨htags, hcity', trivial⟩, ⟨hday, trivial⟩, trivial, trivial, ⟨hclicks, trivial⟩, trivial⟩
    have hl : Json.Reader.ofText Layout.reader (sampleLayout [city [], tags] [clicks] [day]).text
        = .ok l :=
      (Json.ofText_text _ hwell).trans rfl
    obtain ⟨s, hs, hdeclares, -, hsame⟩ := ((ofJson_exact _).2.2 l hl).2 (by decide +kernel)
    rw [Json.document_ofText hwell] at hsame
    have hs' := hsame _ (by rw [Json.document_ofText hwell'])
      (by rw [Json.document_ofText hwell']; exact rearranged_sample [clicks] [day])
    refine ⟨s, hs, hs', hdeclares.name, ?_, ?_, ?_, ?_, ?_, ?_, ?_⟩
    · exact hdeclares.column? _ (.head _)
    · exact hdeclares.column? _ (.tail _ (.head _))
    · exact hdeclares.column? _ (.tail _ (.tail _ (.head _)))
    · exact hdeclares.column? _ (.tail _ (.tail _ (.tail _ (.head _))))
    · rw [← Option.not_isSome_iff_eq_none, hdeclares.isSome_column?_iff]
      decide +kernel
    · exact hdeclares.isMultiValued_iff.mpr ⟨⟨"tags", .string, false⟩, by simp [l], rfl, rfl⟩
    · rw [Bool.eq_false_iff, ne_eq, hdeclares.isMultiValued_iff]
      simp [l]
  · let l : Layout :=
      { name := "shop", dimensions := [⟨"city", .string, true⟩, ⟨"tags", .string, false⟩],
        metrics := [⟨"clicks", .long, false⟩, ⟨"tags", .string, false⟩]
        dateTimes := [⟨"clicks", .long, false⟩] }
    have hwell : (sampleLayout [city [], tags] [clicks, tags] [clicks]).WellFormed :=
      ⟨trivial, ⟨hclicks, htags, trivial⟩, ⟨hcity, htags, trivial⟩, ⟨hclicks, trivial⟩, trivial⟩
    have hl : Json.Reader.ofText Layout.reader
        (sampleLayout [city [], tags] [clicks, tags] [clicks]).text = .ok l :=
      (Json.ofText_text _ hwell).trans rfl
    obtain ⟨before, c, after, hdeclared, hbefore, hc, herror⟩ :=
      ((ofJson_exact _).2.2 l hl).1 (by decide +kernel)
    have hname : c.name = "tags" := by
      simp only [Layout.declared, l, List.map_cons, List.map_nil, List.cons_append,
        List.nil_append] at hdeclared
      -- None before the fourth column repeats a name, and one behind it would have it in front.
      rcases before with _ | ⟨a, _ | ⟨b, _ | ⟨d, _ | ⟨e, before⟩⟩⟩⟩ <;> grind
    rw [herror, hname]
  · have hwell : (Json.array [tags, tags]).WellFormed := ⟨htags, htags, trivial⟩
    exact ⟨_, (ofJson_exact _).1 _ ((Json.ofText_text _ hwell).trans rfl)⟩

end Schema

end QueryTuning
