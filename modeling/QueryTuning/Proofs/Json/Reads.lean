import Mathlib.Data.List.Forall2
import QueryTuning.Json.Record
import QueryTuning.Json.Variant
import QueryTuning.Proofs.Json.Written

/-!
# Readers of written values

A reader reads a written value back if it gives what was written wherever there is room for all
the brackets, and takes the value for malformed wherever there is not. It does so for records,
lists, maps and variants if it does so for their parts.

* `Json.Reads` : a reader reads a value back.
* `Json.Fills` : the members of an object fill in a draft of a record.
* `Json.Reads.ofText` : what that means for the text of the value.
-/

namespace QueryTuning.Json

variable {σ α β : Type}

/-- Entering what a map holds into an empty one gives the map. -/
theorem insertMany_toList (m : Std.ExtTreeMap String α) :
    (∅ : Std.ExtTreeMap String α).insertMany m.toList = m := by
  refine Std.ExtTreeMap.ext_getElem? fun x => ?_
  cases hx : m[x]? with
  | some a =>
    exact Std.ExtTreeMap.getElem?_insertMany_list_of_mem Std.ReflCmp.compare_self
      Std.ExtTreeMap.distinct_keys_toList (Std.ExtTreeMap.mem_toList_iff_getElem?_eq_some.mpr hx)
  | none =>
    refine Std.ExtTreeMap.getElem?_insertMany_list_of_contains_eq_false ?_
    rw [Std.ExtTreeMap.map_fst_toList_eq_keys, Std.ExtTreeMap.contains_keys,
      Std.ExtTreeMap.contains_eq_isSome_getElem?, hx]
    rfl

/-- What bounds the brackets of some members bounds those of each of them. -/
theorem membersNesting_le_iff {members : List (String × Json)} {k : Nat} :
    membersNesting members ≤ k ↔ ∀ m ∈ members, m.2.nesting ≤ k := by
  induction members with
  | nil => simp [membersNesting]
  | cons m members ih => rw [membersNesting, Nat.max_le, ih, List.forall_mem_cons]

/-- **A reader reads a value back**: it gives what was written if there is room for the brackets of
    the value, and takes it for malformed otherwise. -/
def Reads (read : Reader α) (room : Nat) (v : Json) (a : α) : Prop :=
  read room (.ofJson v) = if v.nesting ≤ room then .ok a else malformed

namespace Reads

/-- What a reader reads back is read where there is room. -/
theorem eq_ok {read : Reader α} {room : Nat} {v : Json} {a : α} (h : Reads read room v a)
    (hroom : v.nesting ≤ room) : read room (.ofJson v) = .ok a := by
  rw [show read room (.ofJson v) = _ from h, if_pos hroom]

/-- What a reader reads back can be made into something else. -/
theorem map {read : Reader α} {room : Nat} {v : Json} {a : α} (f : α → β)
    (h : Reads read room v a) : Reads (fun room d => f <$> read room d) room v (f a) := by
  have hread : read room (.ofJson v) = _ := h
  unfold Reads
  simp only [hread]
  split <;> rfl

/-- A value around others takes a bracket of its own, for which there has to be room. -/
theorem of_bracket {read : Reader α} {room : Nat} {v : Json} {a : α} {k : Nat}
    (hnesting : v.nesting = 1 + k) (hzero : read 0 (.ofJson v) = malformed)
    (hsucc : ∀ r, room = r + 1 →
      read (r + 1) (.ofJson v) = if k ≤ r then .ok a else malformed) : Reads read room v a := by
  unfold Reads
  rw [hnesting]
  cases room with
  | zero => rw [hzero, if_neg (by omega)]
  | succ r =>
    rw [hsucc r rfl]
    exact if_congr (by omega) rfl rfl

/-! ## Plain values -/

/-- A string is read back. -/
theorem string (room : Nat) (s : String) : Reads Reader.string room (.string s) s := by
  unfold Reads
  rw [Doc.ofJson, Reader.string, readQuoted, Quoted.read_ofString, nesting, if_pos (Nat.zero_le _)]

/-- A truth value is read back. -/
theorem bool (room : Nat) (b : Bool) : Reads Reader.bool room (.bool b) b := by
  unfold Reads
  rw [Doc.ofJson, Reader.bool, nesting, if_pos (Nat.zero_le _)]

/-- **A signed number of 64 bits is read back.** -/
theorem int64 (room : Nat) (n : Int64) : Reads Reader.int64 room (.int n.toInt) n := by
  have hlow : -0x8000000000000000 ≤ n.toInt := n.le_toInt
  have hhigh : n.toInt < 0x8000000000000000 := n.toInt_lt
  have hvalue := Numeral.value_ofInt hlow (by omega)
  unfold Reads
  rw [int, Doc.ofJson, Reader.int64, Reader.number, hvalue, nesting, if_pos (Nat.zero_le _)]
  simp only [if_pos hhigh, Int64.ofInt_toInt]

/-- **An unsigned number of 64 bits is read back.** -/
theorem uint64 (room : Nat) (n : UInt64) : Reads Reader.uint64 room (.nat n.toNat) n := by
  have hlt : (n.toNat : Int) < 0x10000000000000000 := Int.ofNat_lt.mpr n.toNat_lt
  have hvalue : (Numeral.ofNat n.toNat).value = .ok (.whole n.toNat) :=
    Numeral.value_ofInt (by omega) hlt
  unfold Reads
  rw [nat, Doc.ofJson, Reader.uint64, Reader.number, hvalue, nesting, if_pos (Nat.zero_le _)]
  simp

/-! ## Lists and options -/

/-- Items are read back if each of them is. -/
theorem items {read : Reader α} {room : Nat} {vs : List Json} {as : List α}
    (h : List.Forall₂ (Reads read room) vs as) :
    Reader.items (read room) (Doc.ofItems vs)
      = if itemsNesting vs ≤ room then .ok as else malformed := by
  induction h with
  | nil => rfl
  | @cons v a vs as hv _ ih =>
    have hread : read room (.ofJson v) = _ := hv
    rw [Doc.ofItems, Reader.items, itemsNesting, hread, ih]
    -- Whichever item there is no room for, all items before it have been read.
    by_cases hfirst : v.nesting ≤ room
    · by_cases hmore : itemsNesting vs ≤ room
      · rw [if_pos hfirst, if_pos hmore, if_pos (Nat.max_le.mpr ⟨hfirst, hmore⟩)]
        rfl
      · rw [if_pos hfirst, if_neg hmore, if_neg fun h => hmore (Nat.max_le.mp h).2]
        rfl
    · rw [if_neg hfirst, if_neg fun h => hfirst (Nat.max_le.mp h).1]
      rfl

/-- **A list is read back** if its items are, inside of its bracket. -/
theorem list {read : Reader α} {room : Nat} {vs : List Json} {as : List α}
    (h : ∀ r, room = r + 1 → List.Forall₂ (Reads read r) vs as) :
    Reads (Reader.list read) room (.array vs) as := by
  refine of_bracket rfl rfl fun r hr => ?_
  rw [Doc.ofJson, Reader.list, items (h r hr)]
  split <;> rfl

/-- A value that is missing is read back. -/
theorem none (read : Reader α) (room : Nat) : Reads (Reader.option read) room .null none := by
  unfold Reads
  rw [Doc.ofJson, Reader.option, nesting, if_pos (Nat.zero_le _)]

/-- A value that may be missing is read back if it is there and is not written as null. -/
theorem some {read : Reader α} {room : Nat} {v : Json} {a : α} (hv : v ≠ .null)
    (h : Reads read room v a) : Reads (Reader.option read) room v (some a) := by
  have hoption : Reader.option read room (.ofJson v) = Option.some <$> read room (.ofJson v) := by
    cases v <;> first | rfl | exact absurd rfl hv
  unfold Reads at h ⊢
  rw [hoption, h]
  split <;> rfl

/-! ## Maps -/

/-- Members are entered into a map if their values are read back. -/
theorem entries {read : Reader α} {room : Nat} {write : α → Json} {ps : List (String × α)}
    (h : ∀ p ∈ ps, Reads read room (write p.2) p.2) (map : Std.ExtTreeMap String α) :
    Reader.entries (read room) (Doc.ofMembers (ps.map fun p => (p.1, write p.2))) map
      = if membersNesting (ps.map fun p => (p.1, write p.2)) ≤ room then .ok (map.insertMany ps)
        else malformed := by
  induction ps generalizing map with
  | nil =>
    rw [Std.ExtTreeMap.insertMany_nil]
    rfl
  | cons p ps ih =>
    obtain ⟨hp, hps⟩ := List.forall_mem_cons.mp h
    have hread : read room (.ofJson (write p.2)) = _ := hp
    rw [List.map_cons, Doc.ofMembers, Reader.entries, readQuoted, Quoted.read_ofString,
      membersNesting, Std.ExtTreeMap.insertMany_cons]
    simp only [bind, Except.bind, hread]
    -- Whichever member there is no room for, all members before it have been entered.
    by_cases hfirst : (write p.2).nesting ≤ room
    · simp only [if_pos hfirst, ih hps]
      exact if_congr (by omega) rfl rfl
    · simp only [if_neg hfirst, if_neg fun h => hfirst (Nat.max_le.mp h).1]
      rfl

/-- **A map is read back** if its values are, inside of its bracket. -/
theorem object {read : Reader α} {room : Nat} {write : α → Json}
    {m : Std.ExtTreeMap String α}
    (h : ∀ r, room = r + 1 → ∀ p ∈ m.toList, Reads read r (write p.2) p.2) :
    Reads (Reader.map read) room (.object (m.toList.map fun p => (p.1, write p.2))) m := by
  refine of_bracket rfl rfl fun r hr => ?_
  rw [Doc.ofJson, Reader.map, entries (h r hr), insertMany_toList]
  split <;> rfl

/-! ## Variants -/

/-- The bare name of a form is read back. -/
theorem bareName {variants : List (Variant α)} {name : String} {a : α}
    (hfind : Variant.find variants name = .ok (.bare a)) (room : Nat) :
    Reads (Variant.reader variants) room (.string name) a := by
  unfold Reads
  rw [Doc.ofJson, Variant.reader, Variant.readName, readQuoted, Quoted.read_ofString, nesting,
    if_pos (Nat.zero_le _)]
  simp only [bind, Except.bind, hfind]
  rfl

/-- **A form with what it holds is read back** if that is, inside of the bracket. -/
theorem variant {variants : List (Variant α)} {name : String} {read : Reader α} {room : Nat}
    {v : Json} {a : α} (hfind : Variant.find variants name = .ok (.holding read))
    (h : ∀ r, room = r + 1 → Reads read r v a) :
    Reads (Variant.reader variants) room (.variant name v) a := by
  refine of_bracket rfl rfl fun r hr => ?_
  have hread : read r (.ofJson v) = _ := h r hr
  rw [Json.variant, Doc.ofJson, Doc.ofMembers, Doc.ofMembers, Variant.reader, Variant.readObject,
    readQuoted, Quoted.read_ofString, membersNesting, membersNesting, Nat.max_zero]
  simp only [bind, Except.bind, hfind, Variant.readContent, hread]
  by_cases hroom : v.nesting ≤ r
  · simp only [if_pos hroom]
    rfl
  · simp only [if_neg hroom]
    rfl

end Reads

/-! ## Records -/

/-- **Members fill in a draft** if the fields that they name are read back one after another. -/
def Fills (fields : List (Field σ)) (room : Nat) (members : List (String × Json))
    (draft full : σ) : Prop :=
  Record.readMembers fields room (Doc.ofMembers members) draft
    = if membersNesting members ≤ room then .ok full else malformed

/-- Without any members a draft stays as it is. -/
theorem Fills.nil (fields : List (Field σ)) (room : Nat) (draft : σ) :
    Fills fields room [] draft draft := by
  unfold Fills
  rw [Doc.ofMembers, Record.readMembers, membersNesting, if_pos (Nat.zero_le _)]

/-- A member fills in the field of its name, and the other members fill in the others. -/
theorem Fills.cons {fields : List (Field σ)} {field : Field σ} {room : Nat} {name : String}
    {v : Json} {rest : List (String × Json)} {draft full : σ} {update : σ → σ}
    (hfind : fields.find? (·.name == name) = some field) (hunset : field.isSet draft = false)
    (hread : Reads field.read room v update) (hrest : Fills fields room rest (update draft) full) :
    Fills fields room ((name, v) :: rest) draft full := by
  unfold Fills at hrest ⊢
  have hfield : field.read room (.ofJson v) = _ := hread
  rw [Doc.ofMembers, Record.readMembers, readQuoted, Quoted.read_ofString, membersNesting]
  simp only [bind, Except.bind, hfind, hunset, Bool.false_eq_true, if_false, hfield]
  -- Without room for this member, the ones behind it are not looked at.
  by_cases hfirst : v.nesting ≤ room
  · simp only [if_pos hfirst, hrest]
    exact if_congr (by omega) rfl rfl
  · simp only [if_neg hfirst, if_neg fun h => hfirst (Nat.max_le.mp h).1]
    rfl

/-- **A record is read back** if the members fill in a draft that it is made of. -/
theorem Reads.record {record : Record σ α} {room : Nat} {members : List (String × Json)}
    {full : σ} {a : α} (hfinish : record.finish full = .ok a)
    (h : ∀ r, room = r + 1 → Fills record.fields r members record.start full) :
    Reads record.reader room (.object members) a := by
  refine of_bracket rfl rfl fun r hr => ?_
  have hfill : Record.readMembers record.fields r (Doc.ofMembers members) record.start = _ := h r hr
  rw [Doc.ofJson, Record.reader, hfill]
  split
  · exact hfinish
  · rfl

/-! ## Texts -/

/-- The text of a value is read as the value is. -/
theorem ofText_text (read : Reader α) {v : Json} (hv : v.WellFormed) :
    Reader.ofText read v.text = read maxNesting (.ofJson v) := by
  unfold Reader.ofText
  rw [document_ofText hv]
  dsimp only
  cases read maxNesting (.ofJson v) <;> rfl

/-- **The text of a value that is read back** gives what was written as long as no more than 127
    brackets are open at once, and is malformed otherwise. -/
theorem Reads.ofText {read : Reader α} {v : Json} {a : α} (hv : v.WellFormed)
    (h : Reads read maxNesting v a) :
    Reader.ofText read v.text = if v.nesting ≤ maxNesting then .ok a else malformed :=
  (ofText_text read hv).trans h

end QueryTuning.Json
