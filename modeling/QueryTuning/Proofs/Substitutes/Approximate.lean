import QueryTuning.Proofs.Expr.Spelling
import QueryTuning.Proofs.Json.Numeral
import QueryTuning.Proofs.Substitutes.Grammar

/-!
# The names that have an approximate substitute

Two kinds of names have one: the single names of a table, and `percentile` with a number behind it.
They lie close to each other, but none is of both kinds, so it does not matter which pattern is
tried first.

* `NumberedPercentile` : the names with a number, and the number.
* `Substitutes.lookup_approximate_iff` : the substitute of a name, by its kind.
* `Substitutes.lookup_approximate_reverse` : the patterns may be tried in either order.
* `Substitutes.lookup_approximate_grammar` : all of it, together with the spellings of a name.
-/

namespace QueryTuning

/-! ## Percentiles with a number -/

/-- **A percentile with its number in the name**: behind `percentile` comes a nonempty run of digits
    that stands for the number, and then nothing or `mv`. Zeros in front of the number do not
    count, and 64 bits with a sign have to hold it. -/
def NumberedPercentile (name : String) (n : Nat) : Prop :=
  ∃ ds, Numeral.IsRun ds ∧ digitsValue ds = n ∧ n < 0x8000000000000000 ∧
    (name.toList = FunctionName.percentile.toList ++ ds
      ∨ name.toList = FunctionName.percentile.toList ++ ds ++ ['m', 'v'])

/-- The number is what is read at the end of such a name. -/
theorem numericSuffix_percentile_eq_some_iff {name : String} {k : Int64} :
    numericSuffix FunctionName.percentile name = some k
      ↔ ∃ n, NumberedPercentile name n ∧ k = Int64.ofNat n := by
  rw [numericSuffix_eq_some_iff]
  constructor
  · rintro ⟨ds, hrun, hlt, hk, hname⟩
    exact ⟨digitsValue ds, ⟨ds, hrun, rfl, hlt, hname⟩, hk⟩
  · rintro ⟨n, ⟨ds, hrun, rfl, hlt, hname⟩, hk⟩
    exact ⟨ds, hrun, hlt, hk, hname⟩

theorem isSome_numericSuffix_percentile_iff {name : String} :
    (numericSuffix FunctionName.percentile name).isSome = true
      ↔ ∃ n, NumberedPercentile name n := by
  rw [Option.isSome_iff_exists]
  constructor
  · rintro ⟨k, hk⟩
    obtain ⟨n, hn, -⟩ := numericSuffix_percentile_eq_some_iff.mp hk
    exact ⟨n, hn⟩
  · rintro ⟨n, hn⟩
    exact ⟨_, numericSuffix_percentile_eq_some_iff.mpr ⟨n, hn, rfl⟩⟩

instance (name : String) : Decidable (∃ n, NumberedPercentile name n) :=
  decidable_of_iff _ isSome_numericSuffix_percentile_iff

/-- A name without underscores and capital letters is canonical. -/
theorem canonicalName_eq_self {f : String} (h : ∀ c ∈ f.toList, c ≠ '_' ∧ c.isUpper = false) :
    canonicalName f = f := by
  have hfilter : f.toList.filter (· != '_') = f.toList :=
    List.filter_eq_self.mpr fun c hc => bne_iff_ne.mpr (h c hc).1
  have hmap : f.toList.map Char.toLower = f.toList := by
    have hsame : ∀ c ∈ f.toList, c.toLower = id c := fun c hc =>
      dif_neg (of_decide_eq_false (h c hc).2)
    rw [List.map_congr_left hsame, List.map_id]
  rw [canonicalName, hfilter, hmap, String.ofList_toList]

/-- The decimal digits of a number are one of the runs that stand for it. -/
theorem numberedPercentile_toString {n : Nat} (hn : n < 0x8000000000000000) :
    NumberedPercentile ("percentile" ++ toString n) n ∧
      NumberedPercentile ("percentile" ++ toString n ++ "mv") n := by
  have hrun : Numeral.IsRun (Nat.toDigits 10 n) :=
    ⟨Nat.toDigits_ne_nil, fun _ hc => Nat.isDigit_of_mem_toDigits (by decide) (by decide) hc⟩
  have hvalue : digitsValue (Nat.toDigits 10 n) = n := Nat.ofDigitChars_ten_toDigits
  refine ⟨⟨_, hrun, hvalue, hn, .inl ?_⟩, ⟨_, hrun, hvalue, hn, .inr ?_⟩⟩
  · simp [FunctionName.percentile]
  · simp [FunctionName.percentile]

/-- A digit is no capital letter. -/
theorem isUpper_of_isDigit {c : Char} (h : c.isDigit = true) : c.isUpper = false := by
  have hle : c.val.toNat ≤ 57 :=
    UInt32.le_iff_toNat_le.mp (of_decide_eq_true (Bool.and_eq_true_iff.mp h).2)
  refine decide_eq_false fun hupper => ?_
  have hge : 65 ≤ c.val.toNat := UInt32.le_iff_toNat_le.mp hupper.1
  omega

/-- Names with a number that are written in lower case have their canonical form. -/
theorem NumberedPercentile.canonicalName_eq {name : String} {n : Nat}
    (h : NumberedPercentile name n) : canonicalName name = name := by
  obtain ⟨ds, ⟨-, hdigits⟩, -, -, hname⟩ := h
  have hletters : ∀ c ∈ FunctionName.percentile.toList ++ ['m', 'v'],
      c ≠ '_' ∧ c.isUpper = false := by
    simp [FunctionName.percentile]
  refine canonicalName_eq_self fun c hc => ?_
  -- A character of the name is a letter that is known, or a digit.
  have hcases : c ∈ FunctionName.percentile.toList ++ ['m', 'v'] ∨ c ∈ ds := by
    rcases hname with hname | hname
    · rw [hname, List.mem_append] at hc
      exact hc.imp_left (List.mem_append_left _)
    · rw [hname, List.append_assoc, List.mem_append, List.mem_append] at hc
      rcases hc with hc | hc | hc
      · exact .inl (List.mem_append_left _ hc)
      · exact .inr hc
      · exact .inl (List.mem_append_right _ hc)
  rcases hcases with hc | hc
  · exact hletters c hc
  · exact ⟨Numeral.ne_of_isDigit (hdigits c hc) rfl, isUpper_of_isDigit (hdigits c hc)⟩

namespace Substitutes

/-! ## The two kinds of names -/

/-- What is approximated stands in the table or has a number. -/
theorem approximates_iff {name : String} {new : Substitution} :
    Approximates name new
      ↔ (∃ target, (name, target) ∈ approximateTable ∧ new = { target }) ∨
        ∃ n, NumberedPercentile name n ∧
          new = { target := FunctionName.percentileSmartTDigest
                  appended := some (Int64.ofNat n) } := by
  constructor
  · intro h
    cases h with
    | count hname => rcases hname with rfl | rfl <;> exact .inl ⟨_, by decide, rfl⟩
    | percentile hname => rcases hname with rfl | rfl <;> exact .inl ⟨_, by decide, rfl⟩
    | itself hname =>
      have hself : ∀ name ∈ [FunctionName.distinct, FunctionName.distinctCountHLL,
          FunctionName.distinctCountBitmap, FunctionName.percentileTDigest,
          FunctionName.percentileEst], (name, name) ∈ approximateTable := by
        decide
      exact .inl ⟨name, hself name hname, rfl⟩
    | numbered ds hrun hlt hname => exact .inr ⟨_, ⟨ds, hrun, rfl, hlt, hname⟩, rfl⟩
  · rintro (⟨target, hmem, rfl⟩ | ⟨n, ⟨ds, hrun, rfl, hlt, hname⟩, rfl⟩)
    · exact approximates_of_mem_approximateTable _ hmem
    · exact .numbered name ds hrun hlt hname

/-- **No name of the table has a number.** -/
theorem not_numberedPercentile_of_mem {name target : String}
    (h : (name, target) ∈ approximateTable) (n : Nat) : ¬ NumberedPercentile name n := by
  intro hn
  have hnone := numericSuffix_of_mem_approximateTable _ h
  rw [numericSuffix_percentile_eq_some_iff.mpr ⟨n, hn, rfl⟩] at hnone
  cases hnone

/-- **The substitute of a name** is what the table says, or the number becomes an operand. No other
    name has one. -/
theorem lookup_approximate_iff {name : String} {new : Substitution} :
    approximate.lookup name = some new
      ↔ (∃ target, (canonicalName name, target) ∈ approximateTable ∧ new = { target }) ∨
        ∃ n, NumberedPercentile (canonicalName name) n ∧
          new = { target := FunctionName.percentileSmartTDigest
                  appended := some (Int64.ofNat n) } :=
  lookup_approximate_eq_some_iff.trans approximates_iff

/-- **Either pattern may be tried first**, as no name is of both kinds. -/
theorem lookup_approximate_reverse (name : String) :
    (Substitutes.mk approximate.patterns.reverse).lookup name = approximate.lookup name := by
  have hreverse : (Substitutes.mk approximate.patterns.reverse).lookup name
      = ((numericSuffix FunctionName.percentile (canonicalName name)).map fun n =>
          ({ target := FunctionName.percentileSmartTDigest, appended := some n }
            : Substitution)).or
        ((approximateTable.find? (·.1 == canonicalName name)).map fun entry =>
          { target := entry.2 }) := by
    simp only [lookup, approximate, List.reverse_cons, List.reverse_nil, List.nil_append,
      List.cons_append, List.findSome?_cons, List.findSome?_nil, NamePattern.match?]
    cases numericSuffix FunctionName.percentile (canonicalName name) <;> simp
    cases approximateTable.find? (·.1 == canonicalName name) <;> rfl
  rw [hreverse, lookup, findSome?_approximate]
  cases hentry : approximateTable.find? (·.1 == canonicalName name) with
  | none => simp
  | some entry =>
    have hname : entry.1 = canonicalName name := by simpa using List.find?_some hentry
    have hnone := numericSuffix_of_mem_approximateTable entry (List.mem_of_find?_eq_some hentry)
    rw [hname] at hnone
    rw [hnone]
    rfl

/-! ## The result -/

/-- **Exactly these names have an approximate substitute.**

    * A name of the table, up to its spelling, has the target that stands there, and no number.
    * A percentile with its number in the name gets the number as an operand. This is also the
      number that is read from the name on its own.
    * No other name has a substitute, and no name is of both kinds, so that the patterns may be
      tried in either order.
    * A percentile is found with its number in whatever case it is written and wherever underscores
      stand in it. -/
theorem lookup_approximate_grammar :
    (∀ name new, approximate.lookup name = some new
      ↔ (∃ target, (canonicalName name, target) ∈ approximateTable ∧ new = { target }) ∨
        ∃ n, NumberedPercentile (canonicalName name) n ∧
          new = { target := FunctionName.percentileSmartTDigest
                  appended := some (Int64.ofNat n) }) ∧
    (∀ name k, percentileSuffix name = some k
      ↔ ∃ n, NumberedPercentile (canonicalName name) n ∧ k = Int64.ofNat n) ∧
    (∀ name target n, (name, target) ∈ approximateTable → ¬ NumberedPercentile name n) ∧
    (∀ name, (Substitutes.mk approximate.patterns.reverse).lookup name
      = approximate.lookup name) ∧
    (∀ name (n : Nat), n < 0x8000000000000000 →
      SpelledAlike name ("percentile" ++ toString n) ∨
        SpelledAlike name ("percentile" ++ toString n ++ "mv") →
      approximate.lookup name = some { target := FunctionName.percentileSmartTDigest
                                       appended := some (Int64.ofNat n) }) := by
  refine ⟨fun name new => lookup_approximate_iff,
    fun name k => numericSuffix_percentile_eq_some_iff,
    fun name target n h => not_numberedPercentile_of_mem h n, lookup_approximate_reverse, ?_⟩
  intro name n hn hspelled
  obtain ⟨hplain, hmarked⟩ := numberedPercentile_toString hn
  rw [lookup_approximate_iff]
  refine .inr ⟨n, ?_, rfl⟩
  rcases hspelled with h | h
  · rwa [spelledAlike_iff.mp h, hplain.canonicalName_eq]
  · rwa [spelledAlike_iff.mp h, hmarked.canonicalName_eq]

/-- A name of the table is found in another spelling, and so is a number, without its zeros in
    front. The greatest number that 64 bits with a sign hold is still found, and the next one is
    not. -/
theorem lookup_approximate_grammar_sample :
    approximate.lookup "Distinct_Count" = some { target := "distinctcountsmarthll" } ∧
    (SpelledAlike "Per_Centile_9_5_MV" ("percentile" ++ toString 95 ++ "mv") ∧
      approximate.lookup "Per_Centile_9_5_MV"
        = some { target := FunctionName.percentileSmartTDigest, appended := some 95 }) ∧
    (NumberedPercentile (canonicalName "PERCENTILE_007") 7 ∧
      approximate.lookup "PERCENTILE_007"
        = some { target := FunctionName.percentileSmartTDigest, appended := some 7 }) ∧
    (SpelledAlike "percentile9223372036854775807" ("percentile" ++ toString 9223372036854775807) ∧
      approximate.lookup "percentile9223372036854775807"
        = some { target := FunctionName.percentileSmartTDigest
                 appended := some Int64.maxValue }) ∧
    (¬ (∃ n, NumberedPercentile "percentile9223372036854775808" n) ∧
      percentileSuffix "percentile9223372036854775808" = none) := by
  obtain ⟨hlookup, hsuffix, -, -, hspelled⟩ := lookup_approximate_grammar
  have hcount : (canonicalName "Distinct_Count", "distinctcountsmarthll") ∈ approximateTable := by
    decide +kernel
  have hmarked : SpelledAlike "Per_Centile_9_5_MV" ("percentile" ++ toString 95 ++ "mv") :=
    spelledAlike_iff.mpr (by decide +kernel)
  have hzeros : NumberedPercentile (canonicalName "PERCENTILE_007") 7 :=
    ⟨['0', '0', '7'], ⟨by decide, by simp⟩, rfl, by decide, .inl (by decide +kernel)⟩
  have hgreatest : SpelledAlike "percentile9223372036854775807"
      ("percentile" ++ toString 9223372036854775807) :=
    spelledAlike_iff.mpr (by decide +kernel)
  have htooGreat : ¬ ∃ n, NumberedPercentile "percentile9223372036854775808" n := by
    decide +kernel
  refine ⟨(hlookup _ _).mpr (.inl ⟨_, hcount, rfl⟩),
    ⟨hmarked, hspelled _ 95 (by decide) (.inr hmarked)⟩,
    ⟨hzeros, (hlookup _ _).mpr (.inr ⟨7, hzeros, rfl⟩)⟩,
    ⟨hgreatest, hspelled _ _ (by decide) (.inl hgreatest)⟩, ⟨htooGreat, ?_⟩⟩
  have hcanonical : canonicalName "percentile9223372036854775808"
      = "percentile9223372036854775808" := by decide +kernel
  cases hread : percentileSuffix "percentile9223372036854775808" with
  | none => rfl
  | some k =>
    obtain ⟨n, hn, -⟩ := (hsuffix _ k).mp hread
    exact absurd ⟨n, hcanonical ▸ hn⟩ htooGreat

end Substitutes

end QueryTuning
