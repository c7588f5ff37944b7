import Mathlib.Order.Basic
import Mathlib.Data.String.Basic

/-!
# Texts by their bytes

UTF-8 keeps the order of characters: comparing two texts byte by byte is the same as comparing them
character by character.

* `Text.bytes` : the bytes of a text.
* `Text.utf8EncodeChar_append_lt` : the bytes of the smaller one of two characters come first,
  whatever stands behind them.
* `Text.bytes_lt_iff` : texts are ordered as their bytes are.
-/

namespace QueryTuning.Text

/-- The bytes of a text in UTF-8. -/
def bytes (s : String) : List UInt8 := s.toUTF8.data.toList

/-- The bytes of a text are those of its characters. -/
theorem bytes_eq_flatMap (s : String) : bytes s = s.toList.flatMap String.utf8EncodeChar := by
  obtain ⟨cs, rfl⟩ : ∃ cs, s = String.ofList cs := ⟨s.toList, String.ofList_toList.symm⟩
  simp [bytes, List.utf8Encode]

/-! ## Single characters -/

/-- Of two numbers the smaller one has the smaller quotient, or the smaller remainder under the
    same quotient. -/
theorem div_lt_or_mod_lt {m n : Nat} (h : m < n) (k : Nat) :
    m / k < n / k ∨ m / k = n / k ∧ m % k < n % k := by
  rcases Nat.lt_or_eq_of_le (Nat.div_le_div_right (c := k) h.le) with hlt | heq
  · exact .inl hlt
  · refine .inr ⟨heq, ?_⟩
    have hm := Nat.div_add_mod m k
    have hn := Nat.div_add_mod n k
    rw [heq] at hm
    omega

/-- Numbers are ordered as their digits to the base of 64 are. -/
theorem digits_lt {m n : Nat} (h : m < n) :
    m / 262144 < n / 262144 ∨ m / 262144 = n / 262144 ∧
      (m / 4096 % 64 < n / 4096 % 64 ∨ m / 4096 % 64 = n / 4096 % 64 ∧
        (m / 64 % 64 < n / 64 % 64 ∨ m / 64 % 64 = n / 64 % 64 ∧ m % 64 < n % 64)) := by
  have hdiv (k : Nat) : k / 64 / 64 = k / 4096 ∧ k / 4096 / 64 = k / 262144 := by omega
  rw [← (hdiv m).2, ← (hdiv n).2, ← (hdiv m).1, ← (hdiv n).1]
  rcases div_lt_or_mod_lt h 64 with h | h
  · rcases div_lt_or_mod_lt h 64 with h | h
    · rcases div_lt_or_mod_lt h 64 with h | h
      · exact .inl h
      · exact .inr ⟨h.1, .inl h.2⟩
    · exact .inr ⟨by rw [h.1], .inr ⟨by rw [h.1], .inl h.2⟩⟩
  · exact .inr ⟨by rw [h.1], .inr ⟨by rw [h.1], .inr ⟨by rw [h.1], h.2⟩⟩⟩

/-- Bytes that are given as numbers are ordered as the numbers are. -/
theorem ofNat_cons_lt_iff {m n : Nat} (hm : m < 256) (hn : n < 256) {xs ys : List UInt8} :
    UInt8.ofNat m :: xs < UInt8.ofNat n :: ys ↔ m < n ∨ m = n ∧ xs < ys := by
  rw [List.cons_lt_cons_iff, UInt8.lt_iff_toNat_lt, ← UInt8.toNat_inj, UInt8.toNat_ofNat_of_lt' hm,
    UInt8.toNat_ofNat_of_lt' hn]

/-- **The bytes of the smaller one of two characters come first**, whatever stands behind them. -/
theorem utf8EncodeChar_append_lt {c d : Char} (h : c < d) (xs ys : List UInt8) :
    String.utf8EncodeChar c ++ xs < String.utf8EncodeChar d ++ ys := by
  have hlt : c.val.toNat < d.val.toNat := h
  have hdigits := digits_lt hlt
  have hmax : d.val.toNat < 0x110000 := by
    have hvalid := d.valid
    simp only [UInt32.isValidChar, Nat.isValidChar] at hvalid
    omega
  -- There is room for the first digit of a character of four bytes.
  have hc : c.val.toNat / 262144 % 8 = c.val.toNat / 262144 := Nat.mod_eq_of_lt (by omega)
  have hd : d.val.toNat / 262144 % 8 = d.val.toNat / 262144 := Nat.mod_eq_of_lt (by omega)
  -- Of characters that take up different numbers of bytes the first byte tells which is smaller,
  -- and of the others the first digit in which they differ.
  simp only [String.utf8EncodeChar, hc, hd]
  generalize c.val.toNat = m at *
  generalize d.val.toNat = n at *
  split_ifs <;>
    simp (disch := omega) only [List.cons_append, List.nil_append, ofNat_cons_lt_iff] <;> omega

/-! ## Whole texts -/

/-- The bytes of the smaller one of two sequences of characters come first. -/
theorem flatMap_utf8EncodeChar_lt {cs ds : List Char} (h : cs < ds) :
    cs.flatMap String.utf8EncodeChar < ds.flatMap String.utf8EncodeChar := by
  induction h with
  | @nil d ds =>
    have hpos : 0 < (String.utf8EncodeChar d).length := by
      rw [String.length_utf8EncodeChar]
      exact d.utf8Size_pos
    obtain ⟨b, bs, hb⟩ := List.exists_cons_of_length_pos hpos
    rw [List.flatMap_nil, List.flatMap_cons, hb, List.cons_append]
    exact List.nil_lt_cons _ _
  | @cons c cs ds _ ih =>
    rw [List.flatMap_cons, List.flatMap_cons]
    exact List.append_left_lt ih
  | @rel c cs d ds hcd =>
    rw [List.flatMap_cons, List.flatMap_cons]
    exact utf8EncodeChar_append_lt hcd _ _

/-- **Texts are ordered as their bytes are.** -/
theorem bytes_lt_iff {s t : String} : bytes s < bytes t ↔ s < t := by
  have hmono {s t : String} (h : s < t) : bytes s < bytes t := by
    rw [bytes_eq_flatMap, bytes_eq_flatMap]
    exact flatMap_utf8EncodeChar_lt (String.lt_iff.mp h)
  refine ⟨fun h => ?_, hmono⟩
  rcases lt_trichotomy s t with hlt | rfl | hgt
  · exact hlt
  · exact absurd h (List.lt_irrefl _)
  · exact absurd h (List.lt_asymm (hmono hgt))

end QueryTuning.Text
