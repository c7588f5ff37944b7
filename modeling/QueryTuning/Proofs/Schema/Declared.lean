import Mathlib.Data.Finset.Card
import Mathlib.Data.Finset.Dedup
import Mathlib.Data.List.Induction
import Mathlib.Data.List.Nodup
import QueryTuning.Schema.Layout

/-!
# Schemas as maps of their columns

When columns are declared one after another, the last one of each name is what stays, so columns of
different names may be declared in any order. Where none may be repeated, the first one that is
repeated is told.

* `Schema.ext_column?` : a schema is its name and what is declared under each name.
* `Schema.lastNamed` : the last column of a name among some columns.
* `Schema.column?_addAll` : what is declared after some columns were declared.
* `Schema.addAll_eq_addAll` : columns among which the last ones of all names agree make the same
  schema.
* `Schema.size_addAll` : there are as many columns as names.
* `Schema.addAll_perm` : the order of columns of different names does not matter.
* `Schema.foldlM_addNew` : columns that must be new, all of them are.
* `Schema.foldlM_addNew_of_repeated` : the first column that is not new is refused.
-/

namespace QueryTuning

namespace Schema

variable {s : Schema} {c d : Column} {cs ds : List Column} {x : String}

/-- **A schema is its name and what is declared under each name.** -/
theorem ext_column? {s t : Schema} (hname : s.name = t.name)
    (hcolumn : ∀ x, s.column? x = t.column? x) : s = t := by
  obtain ⟨name, columns⟩ := s
  obtain ⟨name', columns'⟩ := t
  obtain rfl : name = name' := hname
  obtain rfl : columns = columns' := Std.ExtTreeMap.ext_getElem? hcolumn
  rfl

/-! ## The last column of a name -/

/-- Declaring columns leaves the name of a schema as it is. -/
theorem name_addAll (s : Schema) (cs : List Column) : (s.addAll cs).name = s.name := by
  induction cs generalizing s with
  | nil => rfl
  | cons c cs ih => exact ih (s.add c)

/-- The last column of a name among some columns. -/
def lastNamed (cs : List Column) (x : String) : Option Column :=
  (cs.filter fun c => c.name = x).getLast?

/-- The first column is the last one of its name if there is none behind it. -/
theorem lastNamed_cons (c : Column) (cs : List Column) (x : String) :
    lastNamed (c :: cs) x = (lastNamed cs x).or (if c.name = x then some c else none) := by
  unfold lastNamed
  by_cases hc : c.name = x
  · rw [List.filter_cons_of_pos (by simpa using hc), if_pos hc, List.getLast?_cons]
    cases (cs.filter fun c => c.name = x).getLast? <;> rfl
  · rw [List.filter_cons_of_neg (by simpa using hc), if_neg hc, Option.or_none]

/-- The last column of a name is one of the columns and has the name. -/
theorem lastNamed_eq_some (h : lastNamed cs x = some c) : c ∈ cs ∧ c.name = x := by
  have hmem := List.mem_filter.mp (List.mem_of_getLast? h)
  exact ⟨hmem.1, by simpa using hmem.2⟩

/-- There is a last column of a name exactly if there is a column of the name. -/
theorem isSome_lastNamed : (lastNamed cs x).isSome ↔ x ∈ cs.map Column.name := by
  simp [lastNamed]

/-- The last columns agree under all names if they do under the names of the columns. -/
theorem forall_lastNamed_eq_iff :
    (∀ x, lastNamed cs x = lastNamed ds x) ↔
      ∀ x ∈ (cs ++ ds).map Column.name, lastNamed cs x = lastNamed ds x := by
  refine ⟨fun h x _ => h x, fun h x => ?_⟩
  by_cases hx : x ∈ (cs ++ ds).map Column.name
  · exact h x hx
  · -- Under any other name there is no column in either of them.
    rw [List.map_append, List.mem_append, not_or, ← isSome_lastNamed, ← isSome_lastNamed] at hx
    rw [Option.not_isSome_iff_eq_none.mp hx.1, Option.not_isSome_iff_eq_none.mp hx.2]

instance : Decidable (∀ x, lastNamed cs x = lastNamed ds x) :=
  decidable_of_iff _ forall_lastNamed_eq_iff.symm

/-- **The last column of each name stays**, and under a name that no column has nothing changes. -/
theorem column?_addAll (s : Schema) (cs : List Column) (x : String) :
    (s.addAll cs).column? x = (lastNamed cs x).or (s.column? x) := by
  induction cs generalizing s with
  | nil => rfl
  | cons c cs ih =>
    have hadd : (s.addAll (c :: cs)).column? x = (lastNamed cs x).or ((s.add c).column? x) :=
      ih (s.add c)
    rw [hadd, column?_add, lastNamed_cons, Option.or_assoc]
    split <;> rfl

/-- Nothing is declared in a schema without columns. -/
theorem column?_empty (n x : String) : column? { name := n } x = none :=
  Std.ExtTreeMap.getElem?_empty

/-- **What is declared in the end** is the last column of each name. -/
theorem column?_addAll_empty (n : String) (cs : List Column) (x : String) :
    (addAll { name := n } cs).column? x = lastNamed cs x := by
  rw [column?_addAll, column?_empty, Option.or_none]

/-- **Columns among which the last ones of all names agree make the same schema.** -/
theorem addAll_eq_addAll (h : ∀ x, lastNamed cs x = lastNamed ds x) (s : Schema) :
    s.addAll cs = s.addAll ds := by
  refine ext_column? ?_ fun x => ?_
  · rw [name_addAll, name_addAll]
  · rw [column?_addAll, column?_addAll, h]

/-- The names under which something is declared are those of the columns. -/
theorem mem_columns_addAll (n : String) (cs : List Column) (x : String) :
    x ∈ (addAll { name := n } cs).columns ↔ x ∈ cs.map Column.name := by
  rw [← isSome_lastNamed, ← column?_addAll_empty n, column?, Std.ExtTreeMap.isSome_getElem?_iff_mem]

/-- **There are as many columns as there are names.** -/
theorem size_addAll (n : String) (cs : List Column) :
    (addAll { name := n } cs).size = (cs.map Column.name).toFinset.card := by
  have hnodup : (addAll { name := n } cs).columns.keys.Nodup := by
    refine Std.ExtTreeMap.distinct_keys.imp fun hne heq => hne ?_
    exact Std.LawfulEqCmp.compare_eq_iff_eq.mpr heq
  have hkeys : (addAll { name := n } cs).columns.keys.toFinset = (cs.map Column.name).toFinset := by
    ext x
    rw [List.mem_toFinset, List.mem_toFinset, Std.ExtTreeMap.mem_keys, mem_columns_addAll]
  rw [← hkeys, List.toFinset_card_of_nodup hnodup, Std.ExtTreeMap.length_keys, size]

/-! ## Columns in any order -/

/-- Two columns of different names may change places. -/
theorem add_comm (hne : c.name ≠ d.name) (s : Schema) :
    (s.add c).add d = (s.add d).add c := by
  refine ext_column? rfl fun x => ?_
  simp only [column?_add]
  split
  · rename_i hd
    rw [if_neg fun hc => hne (hc.trans hd.symm)]
  · rfl

/-- There is only one column of a name among columns of different names. -/
theorem eq_of_name_eq (hnodup : (cs.map Column.name).Nodup) (hc : c ∈ cs) (hd : d ∈ cs)
    (hname : c.name = d.name) : c = d :=
  List.inj_on_of_nodup_map hnodup hc hd hname

/-- **Columns of different names may be declared in any order.** -/
theorem addAll_perm (hnodup : (cs.map Column.name).Nodup) (hperm : cs.Perm ds) (s : Schema) :
    s.addAll cs = s.addAll ds := by
  refine hperm.foldl_eq' (fun c hc d hd s => ?_) s
  by_cases hname : c.name = d.name
  · rw [eq_of_name_eq hnodup hc hd hname]
  · exact add_comm hname s

/-- Columns are **new** to a schema if they have different names and none of them is declared. -/
structure New (s : Schema) (cs : List Column) : Prop where
  /-- The names are different. -/
  nodup : (cs.map Column.name).Nodup
  /-- No column is declared. -/
  fresh : ∀ c ∈ cs, s.column? c.name = none

/-- The first of some new columns can be declared, and then the others are new. -/
theorem New.add (h : s.New (c :: cs)) : s.column? c.name = none ∧ (s.add c).New cs := by
  obtain ⟨hnodup, hfresh⟩ := h
  obtain ⟨hc, hcs⟩ := List.forall_mem_cons.mp hfresh
  obtain ⟨hnot, hnodup⟩ := List.nodup_cons.mp hnodup
  refine ⟨hc, hnodup, fun d hd => ?_⟩
  have hne : c.name ≠ d.name := fun h => hnot (h ▸ List.mem_map_of_mem hd)
  rw [column?_add, if_neg hne]
  exact hcs d hd

/-- **What is declared after new columns were declared** was declared before or is one of them. -/
theorem column?_addAll_eq_some_iff (h : s.New cs) :
    (s.addAll cs).column? x = some c ↔ s.column? x = some c ∨ c ∈ cs ∧ c.name = x := by
  rw [column?_addAll]
  cases hlast : lastNamed cs x with
  | none =>
    have hnone (hc : c ∈ cs ∧ c.name = x) : False := by
      have hsome : (lastNamed cs x).isSome := isSome_lastNamed.mpr (hc.2 ▸ List.mem_map_of_mem hc.1)
      rw [hlast] at hsome
      cases hsome
    rw [Option.none_or, or_iff_left hnone]
  | some d =>
    -- Where a new column stays, nothing was declared before.
    obtain ⟨hd, rfl⟩ := lastNamed_eq_some hlast
    rw [Option.some_or, h.fresh d hd, Option.some_inj]
    constructor
    · rintro rfl
      exact .inr ⟨hd, rfl⟩
    · rintro (hnone | ⟨hc, hname⟩)
      · cases hnone
      · exact eq_of_name_eq h.nodup hd hc hname.symm

/-! ## Columns that must be new -/

/-- **New columns can be declared one after another.** -/
theorem foldlM_addNew (h : s.New cs) : cs.foldlM addNew s = .ok (s.addAll cs) := by
  induction cs generalizing s with
  | nil => rfl
  | cons c cs ih =>
    obtain ⟨hc, hcs⟩ := h.add
    have hadd : s.addNew c = .ok (s.add c) := by rw [addNew, hc]; rfl
    rw [List.foldlM_cons, hadd]
    exact ih hcs

/-- **A column that is declared already is refused**, and the columns behind it are not looked
    at. -/
theorem foldlM_addNew_of_repeated {before after : List Column} (h : s.New before)
    (hc : c.name ∈ before.map Column.name) :
    (before ++ c :: after).foldlM addNew s = .error (.repeatedColumn c.name s.name) := by
  obtain ⟨d, hd, hname⟩ := List.mem_map.mp hc
  have hcolumn : (s.addAll before).column? c.name = some d :=
    (column?_addAll_eq_some_iff h).mpr (.inr ⟨hd, hname⟩)
  have hadd : (s.addAll before).addNew c = .error (.repeatedColumn c.name s.name) := by
    rw [addNew, hcolumn, name_addAll]
    rfl
  rw [List.foldlM_append, foldlM_addNew h]
  show ((c :: after).foldlM addNew (s.addAll before)) = _
  rw [List.foldlM_cons, hadd]
  rfl

end Schema

/-- Where names are repeated, there is a first column that repeats the name of one before it. The
    induction is from the right: a column at the end is the first one only if there is none before
    it. -/
theorem exists_first_repeated {cs : List Column} (h : ¬ (cs.map Column.name).Nodup) :
    ∃ before c after, cs = before ++ c :: after ∧ (before.map Column.name).Nodup ∧
      c.name ∈ before.map Column.name := by
  induction cs using List.reverseRecOn with
  | nil => exact absurd List.nodup_nil h
  | append_singleton cs c ih =>
    by_cases hcs : (cs.map Column.name).Nodup
    · refine ⟨cs, c, [], rfl, hcs, ?_⟩
      by_contra hc
      refine h ?_
      rw [List.map_append, List.nodup_append]
      refine ⟨hcs, List.nodup_singleton _, fun x hx y hy hxy => hc ?_⟩
      rw [← List.mem_singleton.mp hy, ← hxy]
      exact hx
    · obtain ⟨before, d, after, rfl, hbefore, hd⟩ := ih hcs
      exact ⟨before, d, after ++ [c], by simp, hbefore, hd⟩

end QueryTuning
