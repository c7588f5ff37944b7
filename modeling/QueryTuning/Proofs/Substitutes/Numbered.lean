import Mathlib.Algebra.Group.Nat.Defs
import QueryTuning.Proofs.Substitutes.Grammar

/-!
# Patterns with a number

A pattern with a number takes names apart from both ends, first a mark `mv` off the end and then the
stem off the beginning. The stem may be anything: it may end in digits or in `mv` itself, and it may
be empty. It is never cut, since the number between the stem and the mark has to have a digit.

* `placeValue` : what a run of digits stands for, place by place.
* `NumberedName` : how names with a number are put together.
* `NamePattern.match?_numbered_eq_some_iff` : these are the names that the pattern fits.
* `Substitutes.match?_numbered_and_lookup_add` : the same, and what a pattern adds to others.
-/

namespace QueryTuning

/-- The number that a run of decimal digits stands for: every digit counts as much as its place is
    worth. -/
def placeValue : List Char → Nat
  | [] => 0
  | c :: ds => (c.toNat - '0'.toNat) * 10 ^ ds.length + placeValue ds

/-- Digits are read from left to right, and every further one makes those before it worth ten times
    as much. -/
theorem digitsValue_eq_placeValue (ds : List Char) : digitsValue ds = placeValue ds := by
  induction ds with
  | nil => rfl
  | cons c ds ih =>
    unfold digitsValue at ih ⊢
    rw [Nat.ofDigitChars_cons, Nat.ofDigitChars_eq_ofDigitChars_zero, ih, placeValue, Nat.mul_zero,
      Nat.zero_add, Nat.mul_comm]

/-- **A name with a number**: behind the stem comes a nonempty run of digits that stands for the
    number, and then nothing or the mark `mv`. -/
inductive NumberedName (stem : String) (n : Nat) : String → Prop where
  /-- Nothing comes behind the digits. -/
  | plain (digits : String) (hrun : Numeral.IsRun digits.toList)
      (hvalue : placeValue digits.toList = n) : NumberedName stem n (stem ++ digits)
  /-- The mark comes behind the digits. -/
  | marked (digits : String) (hrun : Numeral.IsRun digits.toList)
      (hvalue : placeValue digits.toList = n) : NumberedName stem n (stem ++ digits ++ "mv")

/-- The parts of a name with a number, letter by letter. -/
theorem numberedName_iff {stem name : String} {n : Nat} :
    NumberedName stem n name
      ↔ ∃ ds, Numeral.IsRun ds ∧ digitsValue ds = n ∧
          (name.toList = stem.toList ++ ds ∨ name.toList = stem.toList ++ ds ++ ['m', 'v']) := by
  constructor
  · intro h
    cases h with
    | plain digits hrun hvalue =>
      exact ⟨_, hrun, (digitsValue_eq_placeValue _).trans hvalue, .inl (by simp)⟩
    | marked digits hrun hvalue =>
      exact ⟨_, hrun, (digitsValue_eq_placeValue _).trans hvalue, .inr (by simp)⟩
  · rintro ⟨ds, hrun, hvalue, hname⟩
    rw [digitsValue_eq_placeValue] at hvalue
    rcases hname with hname | hname
    · obtain rfl : name = stem ++ String.ofList ds := String.toList_injective (by simp [hname])
      exact .plain (String.ofList ds) (by simpa using hrun) (by simpa using hvalue)
    · obtain rfl : name = stem ++ String.ofList ds ++ "mv" :=
        String.toList_injective (by simp [hname])
      exact .marked (String.ofList ds) (by simpa using hrun) (by simpa using hvalue)

/-- The number of such a name is read, whatever the stem is, as far as 64 bits hold it. -/
theorem numericSuffix_eq_some_iff_numberedName {stem name : String} {v : Int64} :
    numericSuffix stem name = some v
      ↔ ∃ n : Nat, NumberedName stem n name ∧ n ≤ 9223372036854775807 ∧ v.toInt = n := by
  rw [numericSuffix_eq_some_iff]
  constructor
  · rintro ⟨ds, hrun, hlt, rfl, hname⟩
    refine ⟨digitsValue ds, numberedName_iff.mpr ⟨ds, hrun, rfl, hname⟩, by omega, ?_⟩
    exact Int64.toInt_ofNat_of_lt hlt
  · rintro ⟨n, hnumbered, hle, hv⟩
    obtain ⟨ds, hrun, rfl, hname⟩ := numberedName_iff.mp hnumbered
    have hlt : digitsValue ds < 0x8000000000000000 := by omega
    refine ⟨ds, hrun, hlt, Int64.toInt_inj.mp ?_, hname⟩
    rw [hv, Int64.toInt_ofNat_of_lt hlt]

/-- **A pattern with a number fits exactly the names with a number behind its stem**, and appends
    the number. -/
theorem NamePattern.match?_numbered_eq_some_iff {stem target name : String} {new : Substitution} :
    (NamePattern.numbered stem target).match? name = some new
      ↔ ∃ (n : Nat) (v : Int64), NumberedName stem n name ∧ n ≤ 9223372036854775807 ∧
          v.toInt = n ∧ new = { target, appended := some v } := by
  rw [NamePattern.match?, Option.map_eq_some_iff]
  constructor
  · rintro ⟨v, hv, rfl⟩
    obtain ⟨n, hname, hle, hn⟩ := numericSuffix_eq_some_iff_numberedName.mp hv
    exact ⟨n, v, hname, hle, hn, rfl⟩
  · rintro ⟨n, v, hname, hle, hn, rfl⟩
    exact ⟨v, numericSuffix_eq_some_iff_numberedName.mpr ⟨n, hname, hle, hn⟩, rfl⟩

namespace Substitutes

/-- **What a pattern with a number fits, and what a pattern adds to others.**

    * Whatever the stem is, the pattern fits a name exactly if it is the stem, a nonempty run of
      digits and then nothing or `mv`, and 64 bits with a sign hold the number. The number is
      appended as it is.
    * The number that is appended is never negative.
    * A pattern that is added to others leaves the names alone that one of them fits; all other
      names get what it says about their canonical form. -/
theorem match?_numbered_and_lookup_add :
    (∀ stem target name new, (NamePattern.numbered stem target).match? name = some new
      ↔ ∃ (n : Nat) (v : Int64), NumberedName stem n name ∧ n ≤ 9223372036854775807 ∧
          v.toInt = n ∧ new = { target, appended := some v }) ∧
    (∀ stem target name new, (NamePattern.numbered stem target).match? name = some new →
      ∃ v, new.appended = some v ∧ 0 ≤ v) ∧
    (∀ (s : Substitutes) (pattern : NamePattern) (name : String),
      (∀ new, s.lookup name = some new → (s.add pattern).lookup name = some new) ∧
      (s.lookup name = none →
        (s.add pattern).lookup name = pattern.match? (canonicalName name))) := by
  refine ⟨fun stem target name new => NamePattern.match?_numbered_eq_some_iff, ?_, ?_⟩
  · intro stem target name new hnew
    obtain ⟨n, v, -, -, hv, rfl⟩ := NamePattern.match?_numbered_eq_some_iff.mp hnew
    refine ⟨v, rfl, Int64.le_iff_toInt_le.mpr ?_⟩
    rw [hv]
    exact Int.natCast_nonneg n
  · intro s pattern name
    constructor
    · intro new hnew
      rw [lookup_add, hnew, Option.some_or]
    · intro hnone
      rw [lookup_add, hnone, Option.none_or]

/-- A stem that ends in `mv` or in a digit is not cut. A name that has a substitute already keeps
    it, and another one gets what is added. -/
theorem match?_numbered_and_lookup_add_sample :
    (NamePattern.numbered "avgmv" "t").match? "avgmv007mv"
        = some { target := "t", appended := some 7 } ∧
    (∃ v : Int64, some 7 = some v ∧ 0 ≤ v) ∧
    (approximate.add (.numbered "percentile" "t")).lookup "PERCENTILE_5"
        = some { target := FunctionName.percentileSmartTDigest, appended := some 5 } ∧
    (approximate.add (.numbered "q9" "t")).lookup "Q_99"
        = some { target := "t", appended := some 9 } := by
  obtain ⟨hfits, hsign, hadd⟩ := match?_numbered_and_lookup_add
  have hmarked : (NamePattern.numbered "avgmv" "t").match? "avgmv007mv"
      = some { target := "t", appended := some 7 } := by
    have hname : NumberedName "avgmv" 7 "avgmv007mv" :=
      .marked "007" ⟨by decide, by simp⟩ rfl
    exact (hfits _ _ _ _).mpr ⟨7, 7, hname, by decide, rfl, rfl⟩
  have hplain : (NamePattern.numbered "q9" "t").match? "q99"
      = some { target := "t", appended := some 9 } := by
    have hname : NumberedName "q9" 9 "q99" := .plain "9" ⟨by decide, by simp⟩ rfl
    exact (hfits _ _ _ _).mpr ⟨9, 9, hname, by decide, rfl, rfl⟩
  have hfound : approximate.lookup "PERCENTILE_5"
      = some { target := FunctionName.percentileSmartTDigest, appended := some 5 } := by
    decide +kernel
  have hmissing : approximate.lookup "Q_99" = none := by decide +kernel
  have hcanonical : canonicalName "Q_99" = "q99" := by decide +kernel
  refine ⟨hmarked, hsign _ _ _ _ hmarked, (hadd _ _ _).1 _ hfound, ?_⟩
  rw [(hadd _ _ _).2 hmissing, hcanonical, hplain]

end Substitutes

end QueryTuning
