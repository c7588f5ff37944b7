import QueryTuning.Proofs.Expr.RoundTrip

/-!
# Spellings of literals

A text ends at the first quote mark that stands alone, so it is told from whatever follows it that
does not begin with another quote mark. All other literals are told by their first character or by
their digits, as long as they are no floating-point numbers.

* `Literal.quoted_append_inj` : a text between quote marks is told from what follows it.
* `Numeral.text_ofInt_inj` : whole numbers with the same digits are the same.
* `Literal.text_inj` : literals with the same spelling are the same.
-/

namespace QueryTuning

namespace Numeral

/-- Numerals that JSON admits are told by their spelling. -/
theorem chars_inj {m n : Numeral} (hm : m.WellFormed) (hn : n.WellFormed)
    (h : m.chars = n.chars) : m = n := by
  have hfound := Json.scanNumeral_chars hm ends_nil
  rw [h, Json.scanNumeral_chars hn ends_nil] at hfound
  exact (Prod.mk.inj (Except.ok.inj hfound)).1.symm

/-- **Whole numbers are told by their spelling**, as far as 64 bits hold them. -/
theorem text_ofInt_inj {m n : Int} (hm : -0x8000000000000000 ≤ m ∧ m < 0x10000000000000000)
    (hn : -0x8000000000000000 ≤ n ∧ n < 0x10000000000000000)
    (h : (ofInt m).text = (ofInt n).text) : m = n := by
  have hsame := chars_inj (wellFormed_ofInt m) (wellFormed_ofInt n) (String.ofList_injective h)
  have hvalue := value_ofInt hm.1 hm.2
  rw [hsame, value_ofInt hn.1 hn.2] at hvalue
  exact (Json.Number.whole.inj (Except.ok.inj hvalue)).symm

/-- The spelling of a whole number begins with a minus sign or a digit. -/
theorem exists_text_ofInt_eq_cons (n : Int) :
    ∃ c cs, (ofInt n).text.toList = c :: cs ∧ (c = '-' ∨ c.isDigit = true) := by
  obtain ⟨c, cs, hchars, hc⟩ := Json.exists_chars_eq_cons (wellFormed_ofInt n)
  exact ⟨c, cs, by rw [text, String.toList_ofList, hchars], hc⟩

/-- The spelling of a whole number has nothing but digits behind its sign. -/
theorem mem_text_ofInt {n : Int} {c : Char} (hc : c ∈ (ofInt n).text.toList) :
    c = '-' ∨ c.isDigit = true := by
  rw [text, String.toList_ofList] at hc
  cases n with
  | ofNat n =>
    have hdigits := (wellFormed_ofNat n).whole_isRun.2
    refine .inr (hdigits c ?_)
    simpa [ofInt, chars, fractionChars, exponentChars, ofNat] using hc
  | negSucc n =>
    have hdigits := (wellFormed_ofNat (n + 1)).whole_isRun.2
    have hmem : c = '-' ∨ c ∈ (ofNat (n + 1)).whole := by
      simpa [ofInt, chars, fractionChars, exponentChars, ofNat] using hc
    exact hmem.imp_right (hdigits c)

end Numeral

namespace Literal

/-! ## Texts -/

/-- What is between quote marks is told from what follows them. The induction is on one of the two
    texts, and each step takes a character off both, or the two marks of a doubled one. -/
theorem doubleQuotes_append_inj {s t rest more : List Char} (hrest : rest.head? ≠ some quoteMark)
    (hmore : more.head? ≠ some quoteMark)
    (h : doubleQuotes s ++ quoteMark :: rest = doubleQuotes t ++ quoteMark :: more) :
    s = t ∧ rest = more := by
  -- A lone mark differs from a doubled one in what follows it.
  have hlone {c : Char} {t rest more : List Char} (hrest : rest.head? ≠ some quoteMark) :
      quoteMark :: rest ≠ doubleQuotes (c :: t) ++ quoteMark :: more := by
    intro h
    rw [doubleQuotes] at h
    split at h
    · rename_i hc
      obtain ⟨-, rfl⟩ := List.cons.inj h
      exact hrest (by rw [hc]; rfl)
    · rename_i hc
      exact hc (List.cons.inj h).1.symm
  induction s generalizing t with
  | nil =>
    cases t with
    | nil => exact ⟨rfl, (List.cons.inj h).2⟩
    | cons c t => exact absurd h (hlone hrest)
  | cons c s ih =>
    cases t with
    | nil => exact absurd h.symm (hlone hmore)
    | cons d t =>
      simp only [doubleQuotes] at h
      split at h <;> split at h
      · rename_i hc hd
        obtain ⟨rfl, hrest'⟩ := ih (List.cons.inj (List.cons.inj h).2).2
        exact ⟨by rw [hc, hd], hrest'⟩
      · rename_i hc hd
        exact absurd ((List.cons.inj h).1.symm.trans hc) hd
      · rename_i hc hd
        exact absurd ((List.cons.inj h).1.trans hd) hc
      · obtain ⟨rfl, htail⟩ := List.cons.inj h
        obtain ⟨rfl, hrest'⟩ := ih htail
        exact ⟨rfl, hrest'⟩

theorem toList_quoted (s : String) :
    (quoted s).toList = quoteMark :: (doubleQuotes s.toList ++ [quoteMark]) := by
  rw [quoted, String.toList_ofList]
  rfl

/-- **A text between quote marks is told from what follows it**, unless that begins with another
    quote mark. -/
theorem quoted_append_inj {s t : String} {rest more : List Char}
    (hrest : rest.head? ≠ some quoteMark) (hmore : more.head? ≠ some quoteMark)
    (h : (quoted s).toList ++ rest = (quoted t).toList ++ more) : s = t ∧ rest = more := by
  simp only [toList_quoted, List.cons_append, List.append_assoc, List.nil_append,
    List.cons.injEq, true_and] at h
  obtain ⟨hlist, hsame⟩ := doubleQuotes_append_inj hrest hmore h
  exact ⟨String.toList_injective hlist, hsame⟩

/-- Quote marks are written into a text, and nothing else is. -/
theorem mem_doubleQuotes {c : Char} {s : List Char} (hc : c ∈ doubleQuotes s) : c ∈ s := by
  induction s with
  | nil => exact hc
  | cons d s ih =>
    rw [doubleQuotes] at hc
    rw [List.mem_cons]
    split at hc
    · rcases List.mem_cons.mp hc with rfl | hc
      · exact .inl rfl
      · exact (List.mem_cons.mp hc).imp_right ih
    · exact (List.mem_cons.mp hc).imp_right ih

theorem mem_quoted {c : Char} {s : String} (hc : c ∈ (quoted s).toList) :
    c = quoteMark ∨ c ∈ s.toList := by
  rw [toList_quoted, List.mem_cons, List.mem_append, List.mem_singleton] at hc
  rcases hc with hc | hc | hc
  · exact .inl hc
  · exact .inr (mem_doubleQuotes hc)
  · exact .inl hc

/-! ## All literals -/

/-- What the first character of a spelling tells. -/
inductive Initial where
  /-- The literal itself, which is spelled as a word. -/
  | word (v : Literal)
  /-- A number. -/
  | number
  /-- A text. -/
  | text

/-- What a first character tells. -/
def Initial.ofChar (c : Char) : Initial :=
  if c = 'N' then .word null
  else if c = 't' then .word (bool true)
  else if c = 'f' then .word (bool false)
  else if c = quoteMark then .text
  else .number

/-- What there is to tell of a literal. -/
def initial : Literal → Initial
  | null => .word null
  | bool b => .word (bool b)
  | int _ | float _ => .number
  | string _ => .text

/-- A sign or a digit tells a number. -/
theorem Initial.ofChar_of_number {c : Char} (hc : c = '-' ∨ c.isDigit = true) :
    ofChar c = .number := by
  have hne {d : Char} (hminus : '-' ≠ d) (hd : d.isDigit = false) : c ≠ d := by
    rcases hc with rfl | hdigit
    · exact hminus
    · exact Numeral.ne_of_isDigit hdigit hd
  have hnull : c ≠ 'N' := hne (by decide) rfl
  have htrue : c ≠ 't' := hne (by decide) rfl
  have hfalse : c ≠ 'f' := hne (by decide) rfl
  have hquote : c ≠ quoteMark := hne (by decide) rfl
  rw [ofChar, if_neg hnull, if_neg htrue, if_neg hfalse, if_neg hquote]

/-- **The first character of a spelling tells the kind of the literal.** -/
theorem exists_text_eq_cons {v : Literal} (hv : v.isFloat = false) :
    ∃ c cs, v.text.toList = c :: cs ∧ Initial.ofChar c = v.initial := by
  cases v with
  | null => exact ⟨'N', _, rfl, rfl⟩
  | bool b => cases b <;> exact ⟨_, _, rfl, rfl⟩
  | int n =>
    obtain ⟨c, cs, htext, hc⟩ := Numeral.exists_text_ofInt_eq_cons n.toInt
    exact ⟨c, cs, htext, Initial.ofChar_of_number hc⟩
  | float x => cases hv
  | string s => exact ⟨quoteMark, _, toList_quoted s, rfl⟩

/-- Literals of one kind are the same, unless they are numbers or texts. -/
theorem cases_of_initial_eq {v w : Literal} (hv : v.isFloat = false) (hw : w.isFloat = false)
    (h : v.initial = w.initial) :
    v = w ∨ (∃ m n, v = .int m ∧ w = .int n) ∨ ∃ s t, v = .string s ∧ w = .string t := by
  cases v <;> cases w <;> simp_all [initial, isFloat]

/-- **Literals are told by their spelling**, floating-point numbers apart. -/
theorem text_inj {v w : Literal} (hv : v.isFloat = false) (hw : w.isFloat = false)
    (h : v.text = w.text) : v = w := by
  obtain ⟨c, cs, hcs, hc⟩ := exists_text_eq_cons hv
  obtain ⟨d, ds, hds, hd⟩ := exists_text_eq_cons hw
  rw [h, hds, List.cons.injEq] at hcs
  obtain ⟨rfl, -⟩ := hcs
  rcases cases_of_initial_eq hv hw (hc.symm.trans hd) with
    rfl | ⟨m, n, rfl, rfl⟩ | ⟨s, t, rfl, rfl⟩
  · rfl
  · have hbounds (k : Int64) :
        -0x8000000000000000 ≤ k.toInt ∧ k.toInt < 0x10000000000000000 :=
      ⟨k.le_toInt, Int.lt_trans k.toInt_lt (by decide)⟩
    exact congrArg int (Int64.toInt_inj.mp (Numeral.text_ofInt_inj (hbounds m) (hbounds n) h))
  · have hlist : (quoted s).toList ++ [] = (quoted t).toList ++ [] := by
      rw [show quoted s = quoted t from h]
    have hnone : ([] : List Char).head? ≠ some quoteMark := by simp
    exact congrArg string (quoted_append_inj hnone hnone hlist).1

end Literal

end QueryTuning
