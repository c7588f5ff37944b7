import Mathlib.Data.List.Perm.Basic
import QueryTuning.Proofs.Json.Parts
import QueryTuning.Proofs.Json.Written

/-!
# Documents in another order

The members of an object may stand in any order and there may be others that belong to no field,
and the items of a list may stand in any order where the order does not matter. What is read from a
document is read from every document that differs in nothing else, part by part.

* `Json.Doc.Rearranged` : the document of a record with its members in another order.
* `Json.Doc.Rearranged.of_perm` : members in any order.
* `Json.Doc.Shuffled` : an array with its items in another order.
* `Json.Record.Admits.rearranged` : a rearranged document has the form of the record as well.
* `Json.Record.Admits.part?_rearranged` : its parts are the same, as far as they are to be.
* `Json.Record.reader_of_rearranged` : if the fields are read as before, the record is.
* `Json.Reader.exists_of_shuffled` : the items of a list are read in the other order.
-/

namespace QueryTuning.Json

variable {σ α : Type} {names : List String} {same : Doc → Doc → Prop}

/-- Lists whose items are related have related first items. -/
theorem head?_rel {R : α → α → Prop} {as bs : List α} (h : List.Forall₂ R as bs) :
    Option.Rel R as.head? bs.head? := by
  cases h with
  | nil => exact .none
  | cons hfirst _ => exact .some hfirst

/-! ## Rearranged records -/

/-- Whether a member belongs to one of some names. -/
def hasField (names : List String) (m : Quoted × Doc) : Bool :=
  names.any fun name => m.1.isName name

theorem hasField_iff {m : Quoted × Doc} :
    hasField names m = true ↔ ∃ name ∈ names, m.1.read = .ok name := by
  simp [hasField, Quoted.isName_iff]

/-- A member is a **stray** if it is well formed and belongs to none of some names. -/
def Stray (names : List String) (m : Quoted × Doc) : Prop :=
  ∃ name, m.1.read = .ok name ∧ name ∉ names ∧ m.2.formFault? = none

/-- Two members are **alike** if they have the same name and the same value, up to a relation. -/
def Alike (same : Doc → Doc → Prop) (m m' : Quoted × Doc) : Prop :=
  m'.1.read = m.1.read ∧ same m.2 m'.2

namespace Doc

/-- **The document of a record is rearranged** if its members stand in another order, if strays
    come or go, and if its parts change in no way but one that is given. -/
inductive Rearranged (names : List String) (same : Doc → Doc → Prop) : Doc → Doc → Prop
  /-- The members with a field, in any order and with any strays among them. -/
  | object {members members' kept strays : List (Quoted × Doc)}
      (hkept : List.Forall₂ (Alike same) (members.filter (hasField names)) kept)
      (hstrays : ∀ m ∈ strays, Stray names m) (hperm : members'.Perm (kept ++ strays)) :
      Rearranged names same (.object members none) (.object members' none)
  /-- The items of an array, where they stand. -/
  | array {ds ds' : List Doc} (h : List.Forall₂ same ds ds') :
      Rearranged names same (.array ds none) (.array ds' none)

variable {members members' kept strays : List (Quoted × Doc)} {name : String}

/-- **Members may stand in any order**, with any strays among them. -/
theorem Rearranged.of_perm (hsame : ∀ d, same d d) (hstrays : ∀ m ∈ strays, Stray names m)
    (hperm : members'.Perm (members.filter (hasField names) ++ strays)) :
    Rearranged names same (.object members none) (.object members' none) :=
  .object (List.forall₂_same.mpr fun m _ => ⟨rfl, hsame m.2⟩) hstrays hperm

/-- Strays have none of the names. -/
theorem values_of_stray (hstrays : ∀ m ∈ strays, Stray names m) (hname : name ∈ names) :
    values strays name = [] := by
  rw [values, List.filterMap_eq_nil_iff]
  intro m hm
  obtain ⟨key, hkey, hnot, -⟩ := hstrays m hm
  rw [if_neg]
  rw [Quoted.isName_iff, hkey]
  exact fun h => hnot (Except.ok.inj h ▸ hname)

/-- The members with a field are all that matters for the names of fields. -/
theorem values_filter_hasField (hname : name ∈ names) :
    values (members.filter (hasField names)) name = values members name := by
  rw [values, List.filterMap_filter, values]
  refine List.filterMap_congr fun m _ => ?_
  by_cases h : m.1.isName name = true
  · rw [if_pos (hasField_iff.mpr ⟨name, hname, Quoted.isName_iff.mp h⟩)]
  · simp [h]

/-- Members that are alike have values that are the same. -/
theorem values_alike {left right : List (Quoted × Doc)}
    (h : List.Forall₂ (Alike same) left right) (name : String) :
    List.Forall₂ same (values left name) (values right name) := by
  refine List.rel_filterMap (fun m m' hm => ?_) h
  obtain ⟨hname, hsame⟩ := hm
  have hiff : m'.1.isName name = m.1.isName name := by rw [Quoted.isName, hname, Quoted.isName]
  rw [hiff]
  split
  · exact .some hsame
  · exact .none

/-- **A rearranged object has the same value under every name** that occurs no more than once. -/
theorem values_rearranged
    (hkept : List.Forall₂ (Alike same) (members.filter (hasField names)) kept)
    (hstrays : ∀ m ∈ strays, Stray names m) (hperm : members'.Perm (kept ++ strays))
    (hname : name ∈ names) (honce : (values members name).length ≤ 1) :
    List.Forall₂ same (values members name) (values members' name) := by
  have halike := values_alike hkept name
  rw [values_filter_hasField hname] at halike
  have hvalues : (values members' name).Perm (values kept name) := by
    have happend := hperm.filterMap fun m : Quoted × Doc =>
      if m.1.isName name then some m.2 else none
    rw [List.filterMap_append] at happend
    rwa [← values, ← values, ← values, values_of_stray hstrays hname, List.append_nil] at happend
  have hlength : (values kept name).length ≤ 1 := halike.length_eq ▸ honce
  -- A single value stays where it is.
  have heq : values members' name = values kept name := by
    cases hkept' : values kept name with
    | nil => exact List.perm_nil.mp (hkept' ▸ hvalues)
    | cons d ds =>
      rw [hkept', List.length_cons] at hlength
      obtain rfl : ds = [] := List.length_eq_zero_iff.mp (by omega)
      exact List.perm_singleton.mp (hkept' ▸ hvalues)
  rw [heq]
  exact halike

/-- Items that stand where others did have their names. -/
theorem item?_rearranged {ds ds' : List Doc} (h : List.Forall₂ same ds ds') (names : List String)
    (name : String) : Option.Rel same (item? names ds name) (item? names ds' name) := by
  induction names generalizing ds ds' with
  | nil => exact .none
  | cons key names ih =>
    cases h with
    | nil =>
      rw [item?_nil]
      exact .none
    | @cons d d' ds ds' hd hds =>
      by_cases hkey : key = name
      · subst hkey
        rw [item?_cons_self, item?_cons_self]
        exact .some hd
      · rw [item?_cons_of_ne hkey, item?_cons_of_ne hkey]
        exact ih hds

/-! ## Written objects -/

/-- The values of a name are those that were written under it. -/
theorem values_ofMembers (members : List (String × Json)) (name : String) :
    values (ofMembers members) name
      = (members.filter (·.1 == name)).map fun m => ofJson m.2 := by
  induction members with
  | nil => rfl
  | cons m members ih =>
    obtain ⟨key, v⟩ := m
    have hkey : (Quoted.ofString key).read = .ok key := Quoted.read_ofString key
    rw [ofMembers]
    by_cases h : key = name
    · subst h
      rw [values_cons_of_read hkey, ih, List.filter_cons_of_pos (by simp), List.map_cons]
    · rw [values_cons_of_ne hkey h, ih, List.filter_cons_of_neg (by simpa using h)]

theorem hasField_ofString (names : List String) (key : String) (d : Doc) :
    hasField names (.ofString key, d) = decide (key ∈ names) := by
  rw [Bool.eq_iff_iff, hasField_iff, decide_eq_true_iff]
  constructor
  · rintro ⟨name, hname, hread⟩
    rw [Quoted.read_ofString] at hread
    exact Except.ok.inj hread ▸ hname
  · exact fun hkey => ⟨key, hkey, Quoted.read_ofString key⟩

/-- The written members with a field. -/
theorem filter_hasField_ofMembers (names : List String) (members : List (String × Json)) :
    (ofMembers members).filter (hasField names) = ofMembers (members.filter (·.1 ∈ names)) := by
  rw [ofMembers_eq_map, ofMembers_eq_map, List.filter_map]
  simp only [Function.comp_def, hasField_ofString]

/-- **A written object is rearranged** by every other one with the same members as far as they have
    a field, in whatever order and with whatever else among them. -/
theorem Rearranged.of_written (hsame : ∀ d, same d d) {members members' : List (String × Json)}
    (h : (members'.filter (·.1 ∈ names)).Perm (members.filter (·.1 ∈ names))) :
    Rearranged names same (ofJson (.object members)) (ofJson (.object members')) := by
  have hperm : members'.Perm (members.filter (·.1 ∈ names) ++ members'.filter (·.1 ∉ names)) := by
    refine List.Perm.trans ?_ (h.append_right _)
    simpa using (List.filter_append_perm (fun m => decide (m.1 ∈ names)) members').symm
  have hstrays : ∀ m ∈ ofMembers (members'.filter (·.1 ∉ names)), Stray names m := by
    intro m hm
    rw [ofMembers_eq_map, List.mem_map] at hm
    obtain ⟨⟨key, v⟩, hmem, rfl⟩ := hm
    have hkey : key ∉ names := by simpa using (List.mem_filter.mp hmem).2
    exact ⟨key, Quoted.read_ofString key, hkey, formFault?_ofJson v⟩
  refine .of_perm hsame hstrays ?_
  rw [filter_hasField_ofMembers, ofMembers_eq_map members', ofMembers_eq_map, ofMembers_eq_map,
    ← List.map_append]
  exact hperm.map _

end Doc

namespace Record

variable {record : Record σ α} {d d' : Doc}

/-- A written object has the form of a record if no field is written twice. -/
theorem admits_written {members : List (String × Json)}
    (hunset : ∀ f ∈ record.fields, f.isSet record.start = false)
    (honce : ∀ f ∈ record.fields, (members.filter (·.1 == f.name)).length ≤ 1) :
    record.Admits (.ofJson (.object members)) := by
  refine ⟨rfl, fun m hm => ?_, fun f hf => ?_⟩
  · rw [Doc.ofMembers_eq_map, List.mem_map] at hm
    obtain ⟨⟨key, v⟩, -, rfl⟩ := hm
    exact ⟨key, Quoted.read_ofString key, .inr (Doc.formFault?_ofJson v)⟩
  · rw [Doc.values_ofMembers, List.length_map, hunset f hf]
    exact honce f hf

/-- **A rearranged document has the form of a record** if the document has it. -/
theorem Admits.rearranged (h : record.Admits d)
    (hd : d.Rearranged (record.fields.map Field.name) same d') : record.Admits d' := by
  cases hd with
  | @object members members' kept strays hkept hstrays hperm =>
    obtain ⟨-, -, honce⟩ := h
    refine ⟨rfl, fun m' hm' => ?_, fun f hf => ?_⟩
    · -- A member is one of those that were kept, or a stray.
      rcases List.mem_append.mp (hperm.mem_iff.mp hm') with hmem | hmem
      · obtain ⟨m, hm, hname, -⟩ := exists_of_mem_right hkept m' hmem
        obtain ⟨name, hfield, hread⟩ := hasField_iff.mp (List.mem_filter.mp hm).2
        exact ⟨name, hname.trans hread, .inl hfield⟩
      · obtain ⟨name, hread, -, hform⟩ := hstrays m' hmem
        exact ⟨name, hread, .inr hform⟩
    · have hf' := honce f hf
      have hvalues := Doc.values_rearranged hkept hstrays hperm (List.mem_map_of_mem hf) (by omega)
      rw [← hvalues.length_eq]
      exact hf'
  | array hds =>
    obtain ⟨-, hitems⟩ := h
    rw [hds.length_eq] at hitems
    exact ⟨rfl, hitems⟩

/-- **The parts of a rearranged document** are what they are to be. -/
theorem Admits.part?_rearranged (h : record.Admits d)
    (hd : d.Rearranged (record.fields.map Field.name) same d') {name : String}
    (hname : name ∈ record.fields.map Field.name) :
    Option.Rel same (d.part? (record.fields.map Field.name) name)
      (d'.part? (record.fields.map Field.name) name) := by
  cases hd with
  | @object members members' kept strays hkept hstrays hperm =>
    obtain ⟨-, -, honce⟩ := h
    obtain ⟨f, hf, rfl⟩ := List.mem_map.mp hname
    have hf' := honce f hf
    have hvalues := Doc.values_rearranged hkept hstrays hperm hname (by omega)
    show Option.Rel same (Doc.values members f.name).head? (Doc.values members' f.name).head?
    exact head?_rel hvalues
  | array hds => exact Doc.item?_rearranged hds _ name

/-- **A record is read from a rearranged document** as before, if its fields are. -/
theorem reader_of_rearranged (hlawful : Lawful record.fields)
    (hsame : ∀ field ∈ record.fields, ∀ room d d' update, same d d' →
      field.read room d = .ok update → field.read room d' = .ok update) {room : Nat} {a : α}
    (h : record.reader room d = .ok a)
    (hd : d.Rearranged (record.fields.map Field.name) same d') : record.reader room d' = .ok a := by
  obtain ⟨r, rfl, hadmits, full, hfull, hfinish⟩ := (reader_eq_ok_iff hlawful).mp h
  have hfull' := fill_of_rel (fun field hfield => hsame field hfield r)
    (fun field hfield => hadmits.part?_rearranged hd (List.mem_map_of_mem hfield)) hfull
  exact (reader_eq_ok_iff hlawful).mpr ⟨r, rfl, hadmits.rearranged hd, full, hfull', hfinish⟩

end Record

/-! ## Shuffled lists -/

/-- **An array is shuffled** if its items stand in another order and change in no way but one that
    is given. -/
inductive Doc.Shuffled (same : Doc → Doc → Prop) : Doc → Doc → Prop
  /-- A document that stays as it is. -/
  | refl (d : Doc) : Shuffled same d d
  /-- The items of an array, in any order. -/
  | array {ds ds' kept : List Doc} (hkept : List.Forall₂ same ds kept) (hperm : ds'.Perm kept) :
      Shuffled same (.array ds none) (.array ds' none)

/-- Items that are the same are read as the same. -/
theorem Reader.forall₂_read_of_same {read : Reader α} {room : Nat} {ds kept : List Doc}
    {as : List α} (hsame : ∀ r d d' a, same d d' → read r d = .ok a → read r d' = .ok a)
    (hkept : List.Forall₂ same ds kept)
    (hread : List.Forall₂ (fun d a => read room d = .ok a) ds as) :
    List.Forall₂ (fun d a => read room d = .ok a) kept as := by
  induction hkept generalizing as with
  | nil =>
    cases hread
    exact .nil
  | cons hd _ ih =>
    cases hread with
    | cons ha has => exact .cons (hsame room _ _ _ hd ha) (ih has)

/-- **A list is read from a shuffled array in another order** if the items are read as before. -/
theorem Reader.exists_of_shuffled {read : Reader α} {room : Nat} {d d' : Doc} {as : List α}
    (hsame : ∀ r d d' a, same d d' → read r d = .ok a → read r d' = .ok a)
    (h : Reader.list read room d = .ok as) (hd : d.Shuffled same d') :
    ∃ as', Reader.list read room d' = .ok as' ∧ as'.Perm as := by
  cases hd with
  | refl => exact ⟨as, h, .refl as⟩
  | @array ds ds' kept hkept hperm =>
    obtain ⟨r, _, rfl, hds, hread⟩ := Reader.list_eq_ok_iff.mp h
    cases hds
    have hkeptRead := forall₂_read_of_same hsame hkept hread
    obtain ⟨as', hread', hperm'⟩ := List.perm_comp_forall₂ hperm hkeptRead
    exact ⟨as', Reader.list_eq_ok_iff.mpr ⟨r, ds', rfl, rfl, hread'⟩, hperm'⟩

/-- A list that may be left out is read from a shuffled array in another order. -/
theorem Reader.exists_mapM_of_shuffled {read : Reader α} {room : Nat} {d? d'? : Option Doc}
    {as? : Option (List α)}
    (hsame : ∀ r d d' a, same d d' → read r d = .ok a → read r d' = .ok a)
    (h : d?.mapM (Reader.list read room) = .ok as?) (hrel : Option.Rel (Doc.Shuffled same) d? d'?) :
    ∃ as'?, d'?.mapM (Reader.list read room) = .ok as'? ∧ (as'?.getD []).Perm (as?.getD []) := by
  cases hrel with
  | none => exact ⟨as?, h, .refl _⟩
  | @some d d' hd =>
    rw [Option.mapM_some] at h
    obtain ⟨as, has, rfl⟩ := exists_of_map_eq_ok h
    obtain ⟨as', has', hperm⟩ := exists_of_shuffled hsame has hd
    exact ⟨some as', mapM_eq_ok_some_iff.mpr ⟨d', rfl, has'⟩, hperm⟩

/-- A string is not shuffled. -/
theorem Reader.mapM_string_of_shuffled {room : Nat} {d? d'? : Option Doc} {s : String}
    (h : d?.mapM (Reader.string room) = .ok (some s))
    (hrel : Option.Rel (Doc.Shuffled same) d? d'?) :
    d'?.mapM (Reader.string room) = .ok (some s) := by
  obtain ⟨d, rfl, hd⟩ := mapM_eq_ok_some_iff.mp h
  obtain ⟨q, rfl, hq⟩ := string_eq_ok_iff.mp hd
  cases hrel with
  | some hshuffled =>
    cases hshuffled with
    | refl => exact h

end QueryTuning.Json
