import QueryTuning.Json.Basic
import QueryTuning.Json.Quoted

/-!
# Written strings

What is written for a string is found again, whatever its characters are, and is read as the same
string.

* `Json.Quoted.ofString` : a string, taken apart as it is found in a text.
* `Json.Quoted.scan_written` : the scan finds it.
* `Json.Quoted.read_ofString` : the reader puts it together again.
-/

namespace QueryTuning.Json

/-- The part of a string that a written character is found as. Control characters without an escape
    of their own are given by their code. -/
def Piece.ofChar (c : Char) : Piece :=
  match c with
  | '"' | '\\' | '\x08' | '\x0c' | '\n' | '\r' | '\t' => .char c
  | _ => if c.toNat < 0x20 then .unit c.toNat else .char c

/-- Only the code of a control character is found in its place. -/
theorem Piece.ofChar_cases (c : Char) :
    ofChar c = .char c ∨ c.toNat < 0x20 ∧ ofChar c = .unit c.toNat := by
  unfold ofChar
  split
  any_goals exact .inl rfl
  split
  · exact .inr ⟨‹_›, rfl⟩
  · exact .inl rfl

namespace Quoted

/-- A string, taken apart as it is found in a text. -/
def ofString (s : String) : Quoted := ⟨s.toList.map Piece.ofChar, none⟩

/-! ## Finding -/

/-- The four digits that are written for a control character give its code. -/
theorem unit?_controlCode :
    ∀ n < 0x20, unit? '0' '0' (n / 16).digitChar (n % 16).digitChar = some n := by
  decide

/-- A character that may stand in a string as it is, is found as it is. -/
theorem scan_cons {c : Char} (hquote : c ≠ '"') (hslash : c ≠ '\\') (hcontrol : ¬ c.toNat < 0x20)
    (rest : List Char) : scan (c :: rest) = (scan rest).map (cons (.char c)) := by
  -- The case for all other characters, which has to be told apart from those before it.
  rw [scan.eq_7, if_neg hcontrol]
  · exact fun h => hquote h
  · intro h _
    exact hslash h
  all_goals
    intros
    exact hslash ‹_›

/-- A written character is found. -/
theorem scan_escape (c : Char) (rest : List Char) :
    scan (escape c ++ rest) = (scan rest).map (cons (.ofChar c)) := by
  unfold escape
  split
  any_goals rfl
  split
  · rename_i hcontrol
    simp [scan, unit?_controlCode c.toNat hcontrol, Piece.ofChar, *]
  · rename_i hquote hslash _ _ _ _ _ hcontrol
    rcases Piece.ofChar_cases c with hplain | ⟨hcode, -⟩
    · rw [hplain]
      exact scan_cons hquote hslash hcontrol rest
    · exact absurd hcode hcontrol

/-- **A written string is found.** The induction is on its characters. -/
theorem scan_written (s : String) (rest : List Char) :
    scan (s.toList.flatMap escape ++ '"' :: rest) = ⟨ofString s, some rest⟩ := by
  unfold ofString
  induction s.toList with
  | nil => rw [List.flatMap_nil, List.nil_append, scan]; rfl
  | cons c cs ih =>
    rw [List.flatMap_cons, List.append_assoc, scan_escape, ih]
    rfl

/-! ## Reading -/

/-- A code below the blank is neither half of a pair, and stands for its character. -/
theorem decode_ofChar (c : Char) (pieces : List Piece) :
    decode none (.ofChar c :: pieces) = (c :: ·) <$> decode none pieces := by
  rcases Piece.ofChar_cases c with hplain | ⟨hcontrol, hcode⟩
  · rw [hplain, decode]
  · rw [hcode]
    have htrailing : isTrailing c.toNat = false := by simp [isTrailing]; omega
    have hleading : isLeading c.toNat = false := by simp [isLeading]; omega
    rw [decode.eq_def]
    simp [htrailing, hleading, Char.ofNat_toNat]

/-- **A written string is read as it was.** -/
theorem read_ofString (s : String) : (ofString s).read = .ok s := by
  have hdecode (cs : List Char) : decode none (cs.map Piece.ofChar) = .ok cs := by
    induction cs with
    | nil => rfl
    | cons c cs ih => rw [List.map_cons, decode_ofChar, ih]; rfl
  simp [read, ofString, hdecode, Functor.map, Except.map]

end Quoted

end QueryTuning.Json
