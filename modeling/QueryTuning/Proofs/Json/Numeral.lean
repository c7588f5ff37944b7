import QueryTuning.Json.Scan

/-!
# Numerals in a text

A numeral that JSON admits is found again in front of whatever cannot prolong it.

* `Numeral.Ends` : what cannot prolong a numeral.
* `Json.scanNumeral_chars` : the numeral that is found is the one that was written.
* `Numeral.wellFormed_ofInt`, `Numeral.value_ofInt` : whole numbers have numerals that JSON admits,
  and stand for themselves as far as 64 bits hold them.
-/

namespace QueryTuning

namespace Numeral

/-- What does not prolong a run of digits. -/
def EndsRun (rest : List Char) : Prop :=
  ∀ c ∈ rest.head?, c.isDigit = false

/-- What does not prolong a numeral: no digit, no point, no power of ten. -/
def Ends (rest : List Char) : Prop :=
  ∀ c ∈ rest.head?, c.isDigit = false ∧ c ≠ '.' ∧ c ≠ 'e' ∧ c ≠ 'E'

theorem Ends.endsRun {rest : List Char} (h : Ends rest) : EndsRun rest :=
  fun c hc => (h c hc).1

/-- Nothing at all does not prolong a numeral. -/
theorem ends_nil : Ends [] := by
  intro c hc
  cases hc

/-- Digits are neither signs nor anything else that a numeral is made of. -/
theorem ne_of_isDigit {c d : Char} (hc : c.isDigit = true) (hd : d.isDigit = false) : c ≠ d := by
  rintro rfl
  rw [hc] at hd
  cases hd

end Numeral

namespace Json

open Numeral

/-! ## Parts of a numeral -/

/-- A run of digits is found in front of what does not prolong it. -/
theorem scanDigits_append {ds rest : List Char} (hrun : IsRun ds) (hrest : EndsRun rest) :
    scanDigits (ds ++ rest) = .ok (ds, rest) := by
  have htake : rest.takeWhile Char.isDigit = [] := by
    cases rest with
    | nil => rfl
    | cons c rest => simp [hrest c rfl]
  have hdrop : rest.dropWhile Char.isDigit = rest := by
    cases rest with
    | nil => rfl
    | cons c rest => simp [hrest c rfl]
  unfold scanDigits
  rw [List.takeWhile_append_of_pos hrun.2, List.dropWhile_append_of_pos hrun.2, htake, hdrop,
    List.append_nil]
  obtain ⟨hne, -⟩ := hrun
  cases ds with
  | nil => exact absurd rfl hne
  | cons d ds => rfl

/-- The digits before the point are found. -/
theorem scanWhole_append {n : Numeral} (h : n.WellFormed) {rest : List Char}
    (hrest : EndsRun rest) : scanWhole (n.whole ++ rest) = .ok (n.whole, rest) := by
  unfold scanWhole
  rw [scanDigits_append h.whole_isRun hrest]
  simp only [bind, Except.bind]
  split
  · -- A zero in front of other digits would be refused, but there is none.
    rename_i c cs heq
    have hzero := h.whole_head (by rw [heq]; rfl)
    rw [heq] at hzero
    simp at hzero
  · rfl

/-- Neither the power of ten nor what stands behind a numeral prolongs the digits in front, or
    begins with a point. -/
theorem exponentChars_ends (n : Numeral) {rest : List Char} (hrest : Ends rest) :
    ∀ c ∈ (n.exponentChars ++ rest).head?, c.isDigit = false ∧ c ≠ '.' := by
  intro c hc
  unfold exponentChars at hc
  cases hexponent : n.exponent with
  | none =>
    rw [hexponent] at hc
    exact ⟨(hrest c hc).1, (hrest c hc).2.1⟩
  | some e =>
    rw [hexponent] at hc
    cases hupper : e.upper <;> simp [Exponent.chars, hupper] at hc <;> subst hc <;> decide

/-- Behind the digits before the point comes no digit. -/
theorem endsRun_fractionChars (n : Numeral) {rest : List Char} (hrest : EndsRun rest) :
    EndsRun (n.fractionChars ++ rest) := by
  unfold fractionChars
  split
  · exact hrest
  · intro c hc
    simp only [List.cons_append, List.head?_cons, Option.mem_def, Option.some.injEq] at hc
    subst hc
    rfl

/-- The digits behind the point are found, and where there is no point, none are. -/
theorem scanFraction_append {n : Numeral} (h : n.WellFormed) {rest : List Char}
    (hrest : EndsRun rest) (hpoint : ∀ c ∈ rest.head?, c ≠ '.') :
    scanFraction (n.fractionChars ++ rest) = .ok (n.fraction, rest) := by
  unfold fractionChars
  cases hfraction : n.fraction with
  | nil =>
    unfold scanFraction
    split
    · rename_i tail heq
      exact absurd rfl (hpoint '.' (by simpa using congrArg List.head? heq))
    · simp
  | cons d ds =>
    have hrun : IsRun (d :: ds) := ⟨List.cons_ne_nil d ds, hfraction ▸ h.fraction_digits⟩
    exact scanDigits_append hrun hrest

/-- The sign of a power of ten is found. -/
theorem scanSign_append (sign : Option Sign) {ds rest : List Char} (hrun : IsRun ds) :
    scanSign (sign.toList.map Sign.char ++ (ds ++ rest)) = (sign, ds ++ rest) := by
  cases sign with
  | some s => cases s <;> rfl
  | none =>
    cases ds with
    | nil => exact absurd rfl hrun.1
    | cons d ds =>
      have hd : d.isDigit = true := hrun.2 d List.mem_cons_self
      have hplus : d ≠ '+' := ne_of_isDigit hd rfl
      have hminus : d ≠ '-' := ne_of_isDigit hd rfl
      show scanSign (d :: (ds ++ rest)) = _
      unfold scanSign
      split
      · rename_i heq
        exact absurd (List.cons.inj heq).1 hplus
      · rename_i heq
        exact absurd (List.cons.inj heq).1 hminus
      · rfl

/-- The power of ten is found, and where there is none, none is. -/
theorem scanExponent_append {n : Numeral} (h : n.WellFormed) {rest : List Char}
    (hrest : Ends rest) : scanExponent (n.exponentChars ++ rest) = .ok (n.exponent, rest) := by
  unfold exponentChars
  cases hexponent : n.exponent with
  | none =>
    show scanExponent rest = _
    unfold scanExponent
    split
    · exact absurd rfl (hrest 'e' rfl).2.2.1
    · exact absurd rfl (hrest 'E' rfl).2.2.2
    · rfl
  | some e =>
    have hrun : IsRun e.digits := h.exponent_isRun e hexponent
    have hdigits (upper : Bool) :
        scanExponentDigits upper (e.sign.toList.map Sign.char ++ (e.digits ++ rest))
          = .ok (some { e with upper }, rest) := by
      unfold scanExponentDigits
      rw [scanSign_append e.sign hrun]
      simp [scanDigits_append hrun hrest.endsRun, bind, Except.bind, pure, Except.pure]
    cases e with
    | mk upper sign digits =>
      cases upper with
      | false => simpa [Exponent.chars, scanExponent] using hdigits false
      | true => simpa [Exponent.chars, scanExponent] using hdigits true

/-! ## Whole numerals -/

/-- A numeral without its minus sign is found. -/
theorem scanUnsigned_append {n : Numeral} (h : n.WellFormed) {rest : List Char}
    (hrest : Ends rest) :
    scanUnsigned n.negative (n.whole ++ (n.fractionChars ++ (n.exponentChars ++ rest)))
      = .ok (n, rest) := by
  have hends := exponentChars_ends n hrest
  have hexponent : EndsRun (n.exponentChars ++ rest) := fun c hc => (hends c hc).1
  have hwhole := scanWhole_append h (endsRun_fractionChars n hexponent)
  have hfraction := scanFraction_append h hexponent fun c hc => (hends c hc).2
  simp [scanUnsigned, hwhole, hfraction, scanExponent_append h hrest, bind, Except.bind, pure,
    Except.pure]

/-- The digits before the point begin with a digit. -/
theorem exists_whole_eq_cons {n : Numeral} (h : n.WellFormed) :
    ∃ d ds, n.whole = d :: ds ∧ d.isDigit = true := by
  obtain ⟨hne, hdigits⟩ := h.whole_isRun
  cases hwhole : n.whole with
  | nil => exact absurd hwhole hne
  | cons d ds => exact ⟨d, ds, rfl, hdigits d (hwhole ▸ List.mem_cons_self)⟩

/-- **A numeral that JSON admits is found** in front of what does not prolong it. -/
theorem scanNumeral_chars {n : Numeral} (h : n.WellFormed) {rest : List Char}
    (hrest : Ends rest) : scanNumeral (n.chars ++ rest) = .ok (n, rest) := by
  have hunsigned := scanUnsigned_append h hrest
  cases hnegative : n.negative with
  | true =>
    rw [hnegative] at hunsigned
    simpa [scanNumeral, Numeral.chars, hnegative] using hunsigned
  | false =>
    rw [hnegative] at hunsigned
    have hchars : n.chars ++ rest = n.whole ++ (n.fractionChars ++ (n.exponentChars ++ rest)) := by
      simp [Numeral.chars, hnegative]
    -- Without the minus sign, the text begins with a digit.
    obtain ⟨d, ds, hwhole, hd⟩ := exists_whole_eq_cons h
    rw [hchars, scanNumeral]
    · exact hunsigned
    · intro tail heq
      rw [hwhole] at heq
      exact ne_of_isDigit hd rfl (List.cons.inj heq).1

/-- The text of a numeral that JSON admits begins with a minus sign or a digit. -/
theorem exists_chars_eq_cons {n : Numeral} (h : n.WellFormed) :
    ∃ c cs, n.chars = c :: cs ∧ (c = '-' ∨ c.isDigit = true) := by
  obtain ⟨d, ds, hwhole, hd⟩ := exists_whole_eq_cons h
  cases hnegative : n.negative with
  | true => exact ⟨'-', _, by simp [Numeral.chars, hnegative]; rfl, .inl rfl⟩
  | false => exact ⟨d, _, by simp [Numeral.chars, hnegative, hwhole]; rfl, .inr hd⟩

end Json

/-! ## Whole numbers -/

namespace Numeral

/-- The digits of a number have no needless zero in front. -/
theorem head?_toDigits_of_pos {n : Nat} (h : 0 < n) : (Nat.toDigits 10 n).head? ≠ some '0' := by
  induction n using Nat.strongRecOn with
  | ind n ih =>
    rw [Nat.toDigits_eq_if (by decide)]
    split
    · rename_i hlt
      have hdigit : ∀ k < 10, 0 < k → [Nat.digitChar k].head? ≠ some '0' := by decide
      exact hdigit n hlt h
    · -- The digit in front is that of the number without its last digit.
      have hfront := ih (n / 10) (by omega) (by omega)
      cases hds : Nat.toDigits 10 (n / 10) with
      | nil => exact absurd hds Nat.toDigits_ne_nil
      | cons d ds =>
        rw [hds] at hfront
        exact hfront

/-- The numeral of a natural number is one that JSON admits. -/
theorem wellFormed_ofNat (n : Nat) : (ofNat n).WellFormed where
  whole_isRun :=
    ⟨Nat.toDigits_ne_nil, fun _ hc => Nat.isDigit_of_mem_toDigits (by decide) (by decide) hc⟩
  whole_head := by
    intro hhead
    rcases Nat.eq_zero_or_pos n with rfl | hpos
    · rfl
    · exact absurd hhead (head?_toDigits_of_pos hpos)
  fraction_digits := by intro c hc; cases hc
  exponent_isRun := by intro e he; cases he

/-- The numeral of an integer is one that JSON admits. -/
theorem wellFormed_ofInt (n : Int) : (ofInt n).WellFormed := by
  cases n with
  | ofNat n => exact wellFormed_ofNat n
  | negSucc n =>
    obtain ⟨hrun, hhead, hfraction, hexponent⟩ := wellFormed_ofNat (n + 1)
    exact ⟨hrun, hhead, hfraction, hexponent⟩

/-- **A whole number stands for itself**, as far as 64 bits hold it. -/
theorem value_ofInt {n : Int} (hlow : -0x8000000000000000 ≤ n) (hhigh : n < 0x10000000000000000) :
    (ofInt n).value = .ok (.whole n) := by
  have hwhole : (ofInt n).whole? = some n := by
    unfold whole?
    cases n with
    | ofNat n =>
      have hlt : n < 0x10000000000000000 := Int.ofNat_lt.mp hhigh
      simp only [ofInt, ofNat, Nat.ofDigitChars_ten_toDigits, Option.isSome_none, ne_eq,
        not_true_eq_false, Bool.false_eq_true, or_self, if_false, if_pos hlt]
      rfl
    | negSucc n =>
      have hle : 0 < n + 1 ∧ n + 1 ≤ 0x8000000000000000 := by omega
      simp only [ofInt, ofNat, Nat.ofDigitChars_ten_toDigits, Option.isSome_none, ne_eq,
        not_true_eq_false, Bool.false_eq_true, or_self, if_false, if_true, if_pos hle]
      rfl
  rw [value, hwhole]

end Numeral

end QueryTuning
