import QueryTuning.Text.Lines

/-!
# Texts put together from lines

Lines with a line feed behind each of them are cut into the same lines again, so a text that was
put together in this way tells its lines. This needs lines that have no line feed inside and no
carriage return at the end.

* `Text.unlines` : the text of some lines.
* `Text.Whole` : the lines that survive.
* `Text.splitLines_unlines` : cutting the text gives the lines.
* `Text.toList_indent_unlines` : a margin stands in front of every line.
-/

namespace QueryTuning.Text

/-- The text of some lines, with a line feed behind each of them. -/
def unlines (ls : List (List Char)) : List Char := ls.flatMap (· ++ ['\n'])

theorem unlines_cons (l : List Char) (ls : List (List Char)) :
    unlines (l :: ls) = l ++ '\n' :: unlines ls := by
  simp [unlines]

theorem unlines_append (ls ms : List (List Char)) : unlines (ls ++ ms) = unlines ls ++ unlines ms :=
  List.flatMap_append

/-- A line is **whole** if it has no line feed inside and no carriage return at its end, which
    would be taken for a part of the line feed behind it. -/
structure Whole (l : List Char) : Prop where
  /-- There is no line feed. -/
  not_mem : '\n' ∉ l
  /-- The last character is no carriage return. -/
  getLast? : l.getLast? ≠ some '\r'

theorem Whole.of_cons {c : Char} {l : List Char} (h : Whole (c :: l)) : Whole l := by
  refine ⟨fun hmem => h.not_mem (List.mem_cons_of_mem c hmem), ?_⟩
  cases l with
  | nil => simp
  | cons d l =>
    have hlast := h.getLast?
    rwa [List.getLast?_cons_cons] at hlast

/-- A line is whole if it is closed by a character that is neither of both. -/
theorem Whole.concat {l : List Char} {c : Char} (hl : '\n' ∉ l) (hfeed : c ≠ '\n')
    (hreturn : c ≠ '\r') : Whole (l ++ [c]) := by
  refine ⟨fun hmem => ?_, ?_⟩
  · rcases List.mem_append.mp hmem with hmem | hmem
    · exact hl hmem
    · exact hfeed (List.mem_singleton.mp hmem).symm
  · rw [List.getLast?_concat]
    exact fun heq => hreturn (Option.some.inj heq)

/-- A whole line without line feeds in front of it is whole. -/
theorem Whole.append {m l : List Char} (hm : '\n' ∉ m) (hl : Whole l) (hne : l ≠ []) :
    Whole (m ++ l) := by
  refine ⟨fun hmem => (List.mem_append.mp hmem).elim hm hl.not_mem, ?_⟩
  rw [List.getLast?_append, List.getLast?_eq_some_getLast hne, Option.some_or,
    ← List.getLast?_eq_some_getLast hne]
  exact hl.getLast?

/-- A whole line is cut off the front of a text. -/
theorem splitLines_append {l : List Char} (h : Whole l) (rest : List Char) :
    splitLines (l ++ '\n' :: rest) = l :: splitLines rest := by
  induction l with
  | nil => rfl
  | cons c l ih =>
    rw [List.cons_append, splitLines, ih h.of_cons]
    · rintro rfl
      exact h.not_mem List.mem_cons_self
    · -- A carriage return does not stand right in front of the line feed.
      rintro rest' rfl heq
      cases l with
      | nil => exact h.getLast? rfl
      | cons d l =>
        obtain rfl : d = '\n' := (List.cons.inj heq).1
        exact h.not_mem (List.mem_cons_of_mem _ List.mem_cons_self)

/-- **A text tells its lines**: cutting the text of whole lines gives the lines. -/
theorem splitLines_unlines {ls : List (List Char)} (h : ∀ l ∈ ls, Whole l) :
    splitLines (unlines ls) = ls := by
  induction ls with
  | nil => rfl
  | cons l ls ih =>
    obtain ⟨hl, hls⟩ := List.forall_mem_cons.mp h
    rw [unlines_cons, splitLines_append hl, ih hls]

/-- Whole lines with the same text are the same. -/
theorem unlines_inj {ls ms : List (List Char)} (hls : ∀ l ∈ ls, Whole l) (hms : ∀ l ∈ ms, Whole l)
    (h : unlines ls = unlines ms) : ls = ms := by
  rw [← splitLines_unlines hls, h, splitLines_unlines hms]

/-- Lines that are joined by line feeds need one more behind the last line. -/
theorem intercalate_append_feed {ls : List (List Char)} (h : ls ≠ []) :
    ['\n'].intercalate ls ++ ['\n'] = unlines ls := by
  induction ls with
  | nil => exact absurd rfl h
  | cons l ls ih =>
    cases ls with
    | nil => simp [unlines]
    | cons m ls =>
      rw [List.intercalate_cons_cons, List.append_assoc, ih (List.cons_ne_nil m ls), unlines_cons l]
      simp

/-- **Indenting a text of whole lines** puts the margin in front of each of them. -/
theorem toList_indent_unlines {ls : List (List Char)} (h : ∀ l ∈ ls, Whole l) (hne : ls ≠ [])
    {margin s : String} (hs : s.toList = unlines ls) :
    (indent margin s).toList ++ ['\n'] = unlines (ls.map (margin.toList ++ ·)) := by
  have hlines : (lines s).map (fun l => (margin ++ l).toList) = ls.map (margin.toList ++ ·) := by
    simp [lines, hs, splitLines_unlines h]
  rw [indent, String.toList_intercalate, List.map_map,
    ← intercalate_append_feed (by simpa using hne),
    ← hlines]
  rfl

end QueryTuning.Text
