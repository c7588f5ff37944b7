import Mathlib.Data.List.Forall2
import Mathlib.Data.List.Nodup
import QueryTuning.Error
import QueryTuning.Json.Variant

/-!
# What has been read

If a reader gives something, this is what it was read from.

* `Json.Reader.string_eq_ok_iff` : a string is read from a string.
* `Json.Reader.list_eq_ok_iff` : a list is read from an array, item by item.
* `Json.Variant.reader_map_bare_eq_ok_iff` : one of several names is read from a string, or from an
  object.
* `Json.mapM_eq_ok_none_iff`, `Json.mapM_eq_ok_some_iff` : what may be left out.
* `Json.exists_mapM_getD_iff` : what stands for something that was left out.
-/

namespace QueryTuning.Json

variable {α β : Type}

/-- What stands on the right of related lists is related to something on the left. -/
theorem exists_of_mem_right {R : α → β → Prop} {as : List α} {bs : List β}
    (h : List.Forall₂ R as bs) : ∀ b ∈ bs, ∃ a ∈ as, R a b := by
  induction h with
  | nil => exact fun b hb => absurd hb List.not_mem_nil
  | cons hfirst _ ih =>
    refine List.forall_mem_cons.mpr ⟨⟨_, List.mem_cons_self, hfirst⟩, fun b hb => ?_⟩
    obtain ⟨a, ha, hab⟩ := ih b hb
    exact ⟨a, List.mem_cons_of_mem _ ha, hab⟩

/-! ## Strings and lists -/

namespace Reader

variable {read : Reader α} {room : Nat} {as : List α}

/-- A string is read from nothing else. -/
theorem string_eq_ok_iff {room : Nat} {d : Doc} {s : String} :
    string room d = .ok s ↔ ∃ q, d = .string q ∧ q.read = .ok s := by
  constructor
  · intro h
    cases d with
    | string q => exact ⟨q, rfl, readQuoted_eq_ok_iff.mp h⟩
    | _ => cases h
  · rintro ⟨q, rfl, hq⟩
    exact readQuoted_eq_ok_iff.mpr hq

/-- Items are read one after another if each of them is read. -/
theorem items_eq_ok_iff {read : Doc → Except Error α} {ds : List Doc} :
    items read ds = .ok as ↔ List.Forall₂ (fun d a => read d = .ok a) ds as := by
  induction ds generalizing as with
  | nil =>
    rw [List.forall₂_nil_left_iff, items, Except.ok.injEq]
    exact eq_comm
  | cons d ds ih =>
    rw [List.forall₂_cons_left_iff]
    constructor
    · intro h
      obtain ⟨a, ha, h⟩ := exists_of_bind_eq_ok h
      obtain ⟨more, hmore, h⟩ := exists_of_bind_eq_ok h
      exact ⟨a, more, ha, ih.mp hmore, (Except.ok.inj h).symm⟩
    · rintro ⟨a, more, ha, hmore, rfl⟩
      rw [items, ha, ih.mpr hmore]
      rfl

/-- **A list is read from an array**, item by item. -/
theorem list_eq_ok_iff {d : Doc} :
    list read room d = .ok as ↔ ∃ r ds, room = r + 1 ∧ d = .array ds none ∧
      List.Forall₂ (fun d a => read r d = .ok a) ds as := by
  constructor
  · intro h
    match d, room, h with
    | .array ds ending, r + 1, h =>
      obtain ⟨more, hmore, h⟩ := exists_of_bind_eq_ok h
      obtain ⟨_, hending, h⟩ := exists_of_bind_eq_ok h
      obtain rfl := Except.ok.inj h
      exact ⟨r, ds, rfl, by rw [checkFault_eq_ok_iff.mp hending], items_eq_ok_iff.mp hmore⟩
  · rintro ⟨r, ds, rfl, rfl, h⟩
    rw [list, items_eq_ok_iff.mpr h]
    rfl

end Reader

/-! ## Names -/

namespace Variant

variable {as : List α} {nameOf : α → String}

/-- Among forms that hold nothing, a name finds the one that has it. -/
theorem find_map_bare_eq_ok_iff (hnodup : (as.map nameOf).Nodup) {name : String}
    {content : Content α} :
    find (as.map fun a => bare (nameOf a) a) name = .ok content ↔
      ∃ a ∈ as, nameOf a = name ∧ content = .bare a := by
  rw [find, List.find?_map]
  cases hfind : as.find? ((·.name == name) ∘ fun a => bare (nameOf a) a) with
  | none =>
    have hnone := List.find?_eq_none.mp hfind
    simp only [Function.comp_apply, bare, beq_iff_eq] at hnone
    constructor
    · intro h
      cases h
    · rintro ⟨a, ha, hname, -⟩
      exact absurd hname (hnone a ha)
  | some b =>
    have hb := List.mem_of_find?_eq_some hfind
    have hname : nameOf b = name := by simpa [bare] using List.find?_some hfind
    constructor
    · intro h
      exact ⟨b, hb, hname, (Except.ok.inj h).symm⟩
    · rintro ⟨a, ha, hname', rfl⟩
      rw [List.inj_on_of_nodup_map hnodup ha hb (hname'.trans hname.symm)]
      rfl

/-- **A form that holds nothing is read from its name**, alone or with null in an object. -/
theorem reader_map_bare_eq_ok_iff (hnodup : (as.map nameOf).Nodup) {room : Nat} {d : Doc} {a : α} :
    reader (as.map fun a => bare (nameOf a) a) room d = .ok a ↔ a ∈ as ∧
      ∃ q, q.read = .ok (nameOf a) ∧
        (d = .string q ∨ 0 < room ∧ d = .object [(q, .null)] none) := by
  constructor
  · intro h
    match d, room, h with
    | .string q, _, h =>
      obtain ⟨name, hq, h⟩ := exists_of_bind_eq_ok h
      obtain ⟨content, hfind, h⟩ := exists_of_bind_eq_ok h
      obtain ⟨b, hb, rfl, rfl⟩ := (find_map_bare_eq_ok_iff hnodup).mp hfind
      obtain rfl := Except.ok.inj h
      exact ⟨hb, q, readQuoted_eq_ok_iff.mp hq, .inl rfl⟩
    | .object [] _, _ + 1, h => cases h
    | .object ((q, d) :: rest) ending, r + 1, h =>
      obtain ⟨name, hq, h⟩ := exists_of_bind_eq_ok h
      obtain ⟨content, hfind, h⟩ := exists_of_bind_eq_ok h
      obtain ⟨b, hb, rfl, rfl⟩ := (find_map_bare_eq_ok_iff hnodup).mp hfind
      obtain ⟨c, hcontent, h⟩ := exists_of_bind_eq_ok h
      obtain ⟨_, hclosed, h⟩ := exists_of_bind_eq_ok h
      obtain rfl := Except.ok.inj h
      obtain ⟨_, hunit, hcontent⟩ := exists_of_bind_eq_ok hcontent
      obtain rfl := Except.ok.inj hcontent
      -- The name has null behind it, and no other member.
      cases d with
      | null =>
        cases rest with
        | nil =>
          rw [checkFault_eq_ok_iff.mp hclosed]
          exact ⟨hb, q, readQuoted_eq_ok_iff.mp hq, .inr ⟨r.succ_pos, rfl⟩⟩
        | cons m rest => cases hclosed
      | _ => cases hunit
  · rintro ⟨ha, q, hq, hd⟩
    have hname := readQuoted_eq_ok_iff.mpr hq
    have hfind := (find_map_bare_eq_ok_iff hnodup).mpr ⟨a, ha, rfl, rfl⟩
    rcases hd with rfl | ⟨hroom, rfl⟩
    · simp only [reader, readName, hname, bind, Except.bind, hfind]
      rfl
    · obtain ⟨r, rfl⟩ := Nat.exists_eq_succ_of_ne_zero (Nat.ne_of_gt hroom)
      simp only [reader, readObject, hname, bind, Except.bind, hfind]
      rfl

end Variant

/-! ## What may be left out -/

variable {read : Doc → Except Error β} {d? : Option Doc}

/-- What may be missing is read as missing if it is. -/
theorem mapM_eq_ok_none_iff : d?.mapM read = .ok none ↔ d? = none := by
  cases d? with
  | none => simp [pure, Except.pure]
  | some d =>
    rw [Option.mapM_some]
    cases read d <;> simp [Functor.map, Except.map]

/-- What may be missing is read if it is there and can be read. -/
theorem mapM_eq_ok_some_iff {b : β} :
    d?.mapM read = .ok (some b) ↔ ∃ d, d? = some d ∧ read d = .ok b := by
  cases d? with
  | none => simp [pure, Except.pure]
  | some d =>
    rw [Option.mapM_some]
    cases hread : read d <;> simp [Functor.map, Except.map, hread]

/-- What is left out is read as its default. -/
theorem exists_mapM_getD_iff {default b : β} :
    (∃ o, d?.mapM read = .ok o ∧ o.getD default = b) ↔
      (d? = none ∧ b = default) ∨ ∃ d, d? = some d ∧ read d = .ok b := by
  constructor
  · rintro ⟨_ | c, ho, rfl⟩
    · exact .inl ⟨mapM_eq_ok_none_iff.mp ho, rfl⟩
    · exact .inr (mapM_eq_ok_some_iff.mp ho)
  · rintro (⟨hnone, hb⟩ | hsome)
    · exact ⟨none, mapM_eq_ok_none_iff.mpr hnone, hb.symm⟩
    · exact ⟨some b, mapM_eq_ok_some_iff.mpr hsome, rfl⟩

end QueryTuning.Json
