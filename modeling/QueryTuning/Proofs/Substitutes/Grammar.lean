import QueryTuning.Decimal.Numeral
import QueryTuning.Substitutes

/-!
# Which names have a substitute

Names are taken apart from both ends when a substitute is looked up. This module says the same the
other way round, by how such names are put together.

* `numericSuffix_eq_some_iff` : the names that are made of a stem and a number.
* `Approximates` : the names that approximate aggregations stand in for, and what they become.
* `Substitutes.lookup_approximate_eq_some_iff` : these are the names that are found.
-/

namespace QueryTuning

/-! ## Names with a number -/

/-- A mark at the end is removed. -/
theorem dropMV_append (cs : List Char) : dropMV (cs ++ ['m', 'v']) = cs := by
  induction cs with
  | nil => rfl
  | cons c cs ih =>
    -- There is a character in front, so the whole is not the mark itself.
    have hne : c :: (cs ++ ['m', 'v']) ≠ ['m', 'v'] := by
      intro h
      have := congrArg List.length h
      simp at this
    rw [List.cons_append, dropMV, ih]
    rintro rfl h
    exact hne (by rw [h])

/-- Without a mark at the end nothing is removed. -/
theorem dropMV_concat {cs : List Char} {c : Char} (h : c ≠ 'v') :
    dropMV (cs ++ [c]) = cs ++ [c] := by
  induction cs with
  | nil => simp [dropMV]
  | cons a cs ih =>
    rw [List.cons_append, dropMV, ih]
    rintro rfl htail
    cases cs with
    | nil => exact h (by simpa using htail)
    | cons b cs => simp at htail

/-- Nothing but one mark at the end is ever removed. -/
theorem dropMV_cases (cs : List Char) : cs = dropMV cs ∨ cs = dropMV cs ++ ['m', 'v'] := by
  fun_induction dropMV cs with
  | case1 => exact .inl rfl
  | case2 => exact .inr rfl
  | case3 c cs _ ih =>
    rcases ih with h | h
    · exact .inl (congrArg (c :: ·) h)
    · exact .inr (congrArg (c :: ·) h)

/-- The number of a run of digits, as far as 64 bits hold it. -/
theorem digitsInt64?_eq_some_iff {ds : List Char} {n : Int64} :
    digitsInt64? ds = some n
      ↔ Numeral.IsRun ds ∧ digitsValue ds < 0x8000000000000000 ∧
          n = Int64.ofNat (digitsValue ds) := by
  rw [Numeral.IsRun, ← List.all_eq_true, digitsInt64?]
  constructor
  · intro h
    by_cases hds : ds ≠ [] ∧ ds.all Char.isDigit ∧ digitsValue ds < 0x8000000000000000
    · rw [if_pos hds] at h
      exact ⟨⟨hds.1, hds.2.1⟩, hds.2.2, (Option.some.inj h).symm⟩
    · rw [if_neg hds] at h
      cases h
  · rintro ⟨⟨hne, hdigits⟩, hlt, rfl⟩
    rw [if_pos ⟨hne, hdigits, hlt⟩]

/-- **Names with a number**: a stem, a nonempty run of digits, and perhaps the mark `mv`. -/
theorem numericSuffix_eq_some_iff {stem name : String} {n : Int64} :
    numericSuffix stem name = some n
      ↔ ∃ ds, Numeral.IsRun ds ∧ digitsValue ds < 0x8000000000000000 ∧
          n = Int64.ofNat (digitsValue ds) ∧
          (name.toList = stem.toList ++ ds ∨ name.toList = stem.toList ++ ds ++ ['m', 'v']) := by
  constructor
  · intro h
    obtain ⟨ds, hstem, hds⟩ := Option.bind_eq_some_iff.mp h
    rw [dropStem?_eq_some_iff] at hstem
    obtain ⟨hrun, hlt, hn⟩ := digitsInt64?_eq_some_iff.mp hds
    refine ⟨ds, hrun, hlt, hn, ?_⟩
    rw [← hstem]
    exact dropMV_cases name.toList
  · rintro ⟨ds, hrun, hlt, hn, hname⟩
    have hbase : dropMV name.toList = stem.toList ++ ds := by
      rcases hname with hname | hname
      · -- The last character is a digit, so it belongs to no mark.
        obtain ⟨init, last, hds⟩ := (List.eq_nil_or_concat ds).resolve_left hrun.1
        rw [List.concat_eq_append] at hds
        subst hds
        have hlast : last ≠ 'v' := by
          have := hrun.2 last (by simp)
          rintro rfl
          exact absurd this (by decide)
        rw [hname, ← List.append_assoc]
        exact dropMV_concat hlast
      · rw [hname]
        exact dropMV_append _
    have hdigits : digitsInt64? ds = some n := digitsInt64?_eq_some_iff.mpr ⟨hrun, hlt, hn⟩
    rw [numericSuffix, hbase, dropStem?_eq_some_iff.mpr rfl]
    exact hdigits

/-! ## Approximate aggregations -/

/-- What approximate aggregations make of a canonical name. -/
inductive Approximates : String → Substitution → Prop where
  /-- Counts of distinct values become approximate from a certain size on. -/
  | count (name : String)
      (hname : name = FunctionName.distinctCount ∨ name = FunctionName.distinctCountMV) :
      Approximates name { target := FunctionName.distinctCountSmartHLL }
  /-- So do percentiles that have their number among the operands. -/
  | percentile (name : String)
      (hname : name = FunctionName.percentile ∨ name = FunctionName.percentileMV) :
      Approximates name { target := FunctionName.percentileSmartTDigest }
  /-- What is approximate already, and a list of distinct values, stands in for itself. -/
  | itself (name : String)
      (hname : name ∈ [FunctionName.distinct, FunctionName.distinctCountHLL,
        FunctionName.distinctCountBitmap, FunctionName.percentileTDigest,
        FunctionName.percentileEst]) :
      Approximates name { target := name }
  /-- A percentile with its number in the name gets the number as an operand. -/
  | numbered (name : String) (ds : List Char) (hrun : Numeral.IsRun ds)
      (hlt : digitsValue ds < 0x8000000000000000)
      (hname : name.toList = FunctionName.percentile.toList ++ ds
        ∨ name.toList = FunctionName.percentile.toList ++ ds ++ ['m', 'v']) :
      Approximates name
        { target := FunctionName.percentileSmartTDigest
          appended := some (Int64.ofNat (digitsValue ds)) }

namespace Substitutes

/-- The patterns are the single names, and then the names with a number. -/
theorem findSome?_approximate (name : String) :
    approximate.patterns.findSome? (·.match? name)
      = ((approximateTable.find? (·.1 == name)).map fun entry =>
          ({ target := entry.2 } : Substitution)).or
        ((numericSuffix FunctionName.percentile name).map fun n =>
          { target := FunctionName.percentileSmartTDigest, appended := some n }) := by
  simp only [approximate, List.findSome?_cons, List.findSome?_nil, NamePattern.match?]
  cases approximateTable.find? (·.1 == name) <;> simp
  cases numericSuffix FunctionName.percentile name <;> rfl

/-- No single name is a name with a number. -/
theorem numericSuffix_of_mem_approximateTable :
    ∀ entry ∈ approximateTable, numericSuffix FunctionName.percentile entry.1 = none := by
  decide +kernel

/-- What is in the table is approximated without a number. -/
theorem approximates_of_mem_approximateTable :
    ∀ entry ∈ approximateTable, Approximates entry.1 { target := entry.2 } := by
  simp only [approximateTable, List.forall_mem_cons]
  -- In the order of the table.
  refine ⟨.count _ (.inl rfl), .count _ (.inr rfl), .itself _ (by decide), .itself _ (by decide),
    .itself _ (by decide), .percentile _ (.inl rfl), .percentile _ (.inr rfl),
    .itself _ (by decide), .itself _ (by decide), ?_⟩
  simp

/-- **The names that the patterns fit** are the names that approximate aggregations stand in
    for. -/
theorem findSome?_approximate_eq_some_iff {name : String} {new : Substitution} :
    approximate.patterns.findSome? (·.match? name) = some new ↔ Approximates name new := by
  rw [findSome?_approximate]
  constructor
  · intro h
    rcases Option.or_eq_some_iff.mp h with h | ⟨-, h⟩
    · obtain ⟨entry, hentry, rfl⟩ := Option.map_eq_some_iff.mp h
      have hname : entry.1 = name := by simpa using List.find?_some hentry
      rw [← hname]
      exact approximates_of_mem_approximateTable entry (List.mem_of_find?_eq_some hentry)
    · obtain ⟨n, hn, rfl⟩ := Option.map_eq_some_iff.mp h
      obtain ⟨ds, hrun, hlt, rfl, hname⟩ := numericSuffix_eq_some_iff.mp hn
      exact .numbered name ds hrun hlt hname
  · intro h
    cases h with
    | count hname => rcases hname with rfl | rfl <;> decide +kernel
    | percentile hname => rcases hname with rfl | rfl <;> decide +kernel
    | itself hname =>
      have hself : ∀ name ∈ [FunctionName.distinct, FunctionName.distinctCountHLL,
          FunctionName.distinctCountBitmap, FunctionName.percentileTDigest,
          FunctionName.percentileEst],
          (approximateTable.find? (·.1 == name)).map (fun entry =>
            ({ target := entry.2 } : Substitution)) = some { target := name } := by
        decide +kernel
      rw [hself name hname, Option.some_or]
    | numbered ds hrun hlt hname =>
      have hsuffix : numericSuffix FunctionName.percentile name
          = some (Int64.ofNat (digitsValue ds)) :=
        numericSuffix_eq_some_iff.mpr ⟨ds, hrun, hlt, rfl, hname⟩
      -- A name with a number is not in the table.
      have hfind : approximateTable.find? (·.1 == name) = none := by
        rw [List.find?_eq_none]
        intro entry hentry heq
        rw [beq_iff_eq] at heq
        have hnone := numericSuffix_of_mem_approximateTable entry hentry
        rw [heq, hsuffix] at hnone
        cases hnone
      rw [hfind, hsuffix]
      rfl

/-- A function is found by its canonical name. -/
theorem lookup_approximate_eq_some_iff {f : String} {new : Substitution} :
    approximate.lookup f = some new ↔ Approximates (canonicalName f) new :=
  findSome?_approximate_eq_some_iff

end Substitutes

/-- A name is approximated in one way only. -/
theorem Approximates.unique {name : String} {new new' : Substitution}
    (h : Approximates name new) (h' : Approximates name new') : new = new' := by
  have hfound := Substitutes.findSome?_approximate_eq_some_iff.mpr h
  have hfound' := Substitutes.findSome?_approximate_eq_some_iff.mpr h'
  rw [hfound] at hfound'
  exact Option.some.inj hfound'

end QueryTuning
