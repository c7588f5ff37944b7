import QueryTuning.Expr.Text
import QueryTuning.Proofs.Expr.Census
import QueryTuning.Proofs.Literal.Text
import QueryTuning.Proofs.Text.Pieces

/-!
# Spellings of expressions

The spelling of an expression is a word, a text between quote marks, or a word with operands in
parentheses. A word ends where one of a few characters stands, a text ends at a lone quote mark,
and operands end at the parenthesis that closes them. So an expression is told from whatever may
follow it, if its names are words.

* `Expr.Plain` : expressions whose names are words.
* `listed_append_inj` : what is listed with commas is made out.
* `Expr.told_text` : an expression is told in front of what closes it.
-/

namespace QueryTuning

/-! ## Words -/

/-- The characters that end a word. -/
def separators : List Char := ['(', ')', ',', Literal.quoteMark, ' ']

/-- A text is a **word** if it has none of the characters that end one. -/
def IsWord (s : List Char) : Prop := ∀ c ∈ s, c ∉ separators

instance : DecidablePred IsWord := fun s => s.decidableBAll (· ∉ separators)

/-- Numbers are words. -/
theorem not_mem_separators {c : Char} (hc : c = '-' ∨ c.isDigit = true) : c ∉ separators := by
  rcases hc with rfl | hdigit
  · decide
  · intro hmem
    simp only [separators, List.mem_cons, List.not_mem_nil, or_false] at hmem
    rcases hmem with rfl | rfl | rfl | rfl | rfl <;> revert hdigit <;> decide

/-- A word is made out in front of what ends it. The induction is on the word. -/
theorem word_append_inj {w w' r s : List Char} (hw : IsWord w) (hw' : IsWord w')
    (hr : ∀ c ∈ r.head?, c ∈ separators) (hs : ∀ c ∈ s.head?, c ∈ separators)
    (h : w ++ r = w' ++ s) : w = w' ∧ r = s := by
  induction w generalizing w' with
  | nil =>
    cases w' with
    | nil => exact ⟨rfl, h⟩
    | cons c w' =>
      obtain rfl : r = c :: (w' ++ s) := h
      exact absurd (hr c rfl) (hw' c List.mem_cons_self)
  | cons c w ih =>
    cases w' with
    | nil =>
      obtain rfl : c :: (w ++ r) = s := h
      exact absurd (hs c rfl) (hw c List.mem_cons_self)
    | cons d w' =>
      obtain ⟨rfl, htail⟩ := List.cons.inj h
      obtain ⟨rfl, hrest⟩ := ih (fun e he => hw e (List.mem_cons_of_mem c he))
        (fun e he => hw' e (List.mem_cons_of_mem c he)) htail
      exact ⟨rfl, hrest⟩

/-- The name of a column is **plain** if it is a word that could not be taken for a literal. -/
structure PlainName (x : String) : Prop where
  /-- The name is a word. -/
  word : IsWord x.toList
  /-- It is not empty. -/
  ne_empty : x ≠ ""
  /-- It does not begin like a number. -/
  initial : ∀ c ∈ x.toList.head?, c ≠ '-' ∧ c.isDigit = false
  /-- It is no word for a literal. -/
  not_mem : x ∉ ["NULL", "true", "false"]

instance : DecidablePred PlainName := fun x =>
  have : Decidable (∀ c ∈ x.toList.head?, c ≠ '-' ∧ c.isDigit = false) :=
    Option.decidableForallMem _
  decidable_of_iff (IsWord x.toList ∧ x ≠ "" ∧
      (∀ c ∈ x.toList.head?, c ≠ '-' ∧ c.isDigit = false) ∧ x ∉ ["NULL", "true", "false"])
    ⟨fun ⟨hword, hne, hinitial, hmem⟩ => ⟨hword, hne, hinitial, hmem⟩,
      fun ⟨hword, hne, hinitial, hmem⟩ => ⟨hword, hne, hinitial, hmem⟩⟩

/-- No literal is spelled like a plain name. -/
theorem PlainName.ne_text {x : String} (hx : PlainName x) {v : Literal} (hv : v.isFloat = false) :
    x ≠ v.text := by
  rintro rfl
  cases v with
  | null => exact hx.not_mem (by decide)
  | bool b => cases b <;> exact hx.not_mem (by decide)
  | int n =>
    obtain ⟨c, cs, htext, hc⟩ := Numeral.exists_text_ofInt_eq_cons n.toInt
    have hinitial :=
      hx.initial c (by rw [show (Literal.int n).text.toList = c :: cs from htext]; rfl)
    rcases hc with hc | hc
    · exact hinitial.1 hc
    · rw [hinitial.2] at hc
      cases hc
  | float y => cases hv
  | string s =>
    have htext : (Literal.string s).text.toList = _ := Literal.toList_quoted s
    exact hx.word Literal.quoteMark (htext ▸ List.mem_cons_self) (by decide)

/-! ## Lists with commas -/

/-- The characters that close a member of a list. -/
def closers : List Char := [')', ',', ' ']

/-- What closes a member ends a word, too. -/
theorem closers_subset : closers ⊆ separators := by
  simp [closers, separators]

/-- What is left of a text **closes** what stands before it if it begins with one of a few
    characters, or if nothing is left. -/
def Closes (r : List Char) : Prop := ∀ c ∈ r.head?, c ∈ closers

/-- Where nothing is left, nothing has to close what stands before it. -/
theorem closes_nil : Closes [] := by
  intro c hc
  cases hc

/-- What begins with a closer closes what stands before it. -/
theorem closes_cons {c : Char} (hc : c ∈ closers) (r : List Char) : Closes (c :: r) := by
  intro d hd
  obtain rfl : c = d := Option.some.inj hd
  exact hc

/-- Quote marks do not close anything. -/
theorem Closes.head?_ne_quoteMark {r : List Char} (h : Closes r) :
    r.head? ≠ some Literal.quoteMark := by
  intro hquote
  exact absurd (h _ hquote) (by decide)

/-- What is left **ends a list** if it closes the last member and no comma follows. -/
def EndsList (r : List Char) : Prop := Closes r ∧ r.head? ≠ some ','

section Listed

variable {α : Type} (f : α → String)

/-- A list begins with its first member, and the others stand behind commas. -/
theorem toList_listed (a : α) (as : List α) :
    (", ".intercalate ((a :: as).map f)).toList
      = (f a).toList ++ as.flatMap fun b => ", ".toList ++ (f b).toList := by
  induction as generalizing a with
  | nil => simp
  | cons b as ih =>
    rw [List.map_cons, List.map_cons, String.intercalate_cons_cons, ← List.map_cons,
      String.toList_append, String.toList_append, ih, List.flatMap_cons]
    simp

/-- Members behind commas follow one another. -/
theorem pieces_listed :
    Pieces (fun b => ", ".toList ++ (f b).toList) (fun _ => True) Closes EndsList where
  next _ _ := closes_cons (by decide) _
  last hr := hr.1
  ne s _ hr := by
    rintro rfl
    exact hr.2 rfl

variable {f}

/-- **A list with commas is made out** in front of what ends it, if its members are told in front of
    what closes them. -/
theorem listed_append_inj {as bs : List α} {r s : List Char}
    (htold : ∀ a ∈ as, ∀ b ∈ bs, Told (fun a => (f a).toList) Closes a b) (has : as ≠ [])
    (hbs : bs ≠ []) (hr : EndsList r) (hs : EndsList s)
    (h : (", ".intercalate (as.map f)).toList ++ r = (", ".intercalate (bs.map f)).toList ++ s) :
    as = bs ∧ r = s := by
  obtain ⟨a, as, rfl⟩ := List.exists_cons_of_ne_nil has
  obtain ⟨b, bs, rfl⟩ := List.exists_cons_of_ne_nil hbs
  rw [toList_listed, toList_listed, List.append_assoc, List.append_assoc] at h
  have hpieces := pieces_listed f
  have hfollows {cs : List α} {t : List Char} (ht : EndsList t) :
      Closes ((cs.flatMap fun b => ", ".toList ++ (f b).toList) ++ t) :=
    hpieces.follows_flatMap (fun _ _ => trivial) ht
  obtain ⟨rfl, hrest⟩ := htold a List.mem_cons_self b List.mem_cons_self _ _ (hfollows hr)
    (hfollows hs) h
  -- Behind a comma and a blank, members are told as well as at the beginning.
  have htail : ∀ c ∈ as, ∀ d ∈ bs, Told (fun b => ", ".toList ++ (f b).toList) Closes c d := by
    intro c hc d hd r s hr hs heq
    rw [List.append_assoc, List.append_assoc, List.append_cancel_left_eq] at heq
    exact htold c (List.mem_cons_of_mem a hc) d (List.mem_cons_of_mem a hd) r s hr hs heq
  obtain ⟨rfl, hend⟩ := hpieces.flatMap_append_inj (fun _ _ => trivial) (fun _ _ => trivial) htail
    hr hs hrest
  exact ⟨rfl, hend⟩

end Listed

/-! ## Expressions -/

namespace Expr

/-- An expression is **plain** if it has no floating-point numbers, if its columns have plain names,
    and if its functions are words. -/
def Plain (e : Expr) : Prop :=
  e.MadeOf (·.isFloat = false) PlainName fun f => IsWord f.toList

instance : DecidablePred Plain := fun e =>
  inferInstanceAs (Decidable (e.MadeOf (·.isFloat = false) PlainName fun f => IsWord f.toList))

theorem plain_call {f : String} {es : List Expr} :
    Plain (.call f es) ↔ IsWord f.toList ∧ ∀ e ∈ es, e.Plain := madeOf_call

/-- The operands of a call, listed. -/
def operandsText (es : List Expr) : List Char := (", ".intercalate (es.map text)).toList

/-- The word at the beginning of a spelling. A text between quote marks begins with none. -/
def word : Expr → List Char
  | literal (.string _) => []
  | literal v => v.text.toList
  | identifier x => x.toList
  | call f _ => f.toList

/-- What stands behind the word. -/
def behind : Expr → List Char
  | literal (.string s) => (Literal.quoted s).toList
  | literal _ | identifier _ => []
  | call _ es => '(' :: (operandsText es ++ [')'])

/-- The character that tells what stands behind the word, if anything does. -/
def mark : Expr → Option Char
  | literal (.string _) => some Literal.quoteMark
  | literal _ | identifier _ => none
  | call _ _ => some '('

theorem toList_text (e : Expr) : e.text.toList = e.word ++ e.behind := by
  cases e with
  | literal v => cases v <;> simp [word, behind, Literal.text]
  | identifier x => simp [word, behind]
  | call f es => simp [word, behind, operandsText]

theorem Plain.isWord {e : Expr} (h : e.Plain) : IsWord e.word := by
  cases e with
  | literal v =>
    cases v with
    | null => exact (by decide : IsWord "NULL".toList)
    | bool b =>
      cases b
      · exact (by decide : IsWord "false".toList)
      · exact (by decide : IsWord "true".toList)
    | int n => exact fun c hc => not_mem_separators (Numeral.mem_text_ofInt hc)
    | float x => cases madeOf_literal.mp h
    | string s => exact (by decide : IsWord [])
  | identifier x => exact (madeOf_identifier.mp h).word
  | call f es => exact (plain_call.mp h).1

theorem head?_behind (e : Expr) : e.behind.head? = e.mark := by
  cases e with
  | literal v =>
    cases v with
    | string s => simp [behind, mark, Literal.toList_quoted]
    | _ => rfl
  | identifier x => rfl
  | call f es => rfl

/-- **The mark is read off** in front of what closes an expression. -/
theorem filter_head?_behind {e : Expr} {r : List Char} (hr : Closes r) :
    (e.behind ++ r).head?.filter (· ∉ closers) = e.mark := by
  rw [List.head?_append, head?_behind]
  have hnone : r.head?.filter (· ∉ closers) = none := by
    rw [Option.filter_eq_none_iff]
    exact fun c hc => by simpa using hr c hc
  cases e with
  | literal v =>
    cases v with
    | string s => rfl
    | _ => exact hnone
  | identifier x => exact hnone
  | call f es => rfl

/-- What stands behind the word ends it. -/
theorem mem_separators_behind {e : Expr} {r : List Char} (hr : Closes r) :
    ∀ c ∈ (e.behind ++ r).head?, c ∈ separators := by
  intro c hc
  rw [List.head?_append, head?_behind] at hc
  have hcloser (hc : c ∈ r.head?) : c ∈ separators := closers_subset (hr c hc)
  cases e with
  | literal v =>
    cases v with
    | string s =>
      obtain rfl : Literal.quoteMark = c := Option.some.inj hc
      decide
    | _ => exact hcloser hc
  | identifier x => exact hcloser hc
  | call f es =>
    obtain rfl : '(' = c := Option.some.inj hc
    decide

/-- The spelling of a plain expression does not begin like what closes one. -/
theorem Plain.not_closes_text {e : Expr} (h : e.Plain) (r : List Char) :
    ¬ Closes (e.text.toList ++ r) := by
  have hmark : e.word = [] → ∃ c, e.mark = some c ∧ c ∉ closers := by
    intro hword
    cases e with
    | literal v =>
      cases v with
      | string s => exact ⟨_, rfl, by decide⟩
      | _ => 
        obtain ⟨c, cs, htext, -⟩ := Literal.exists_text_eq_cons (madeOf_literal.mp h)
        exact absurd (htext.symm.trans hword) (List.cons_ne_nil c cs)
    | identifier x =>
      exact absurd (String.toList_eq_nil_iff.mp hword) (madeOf_identifier.mp h).ne_empty
    | call f es => exact ⟨_, rfl, by decide⟩
  intro hcloses
  rw [toList_text] at hcloses
  cases hword : e.word with
  | nil =>
    obtain ⟨c, hc, hnot⟩ := hmark hword
    rw [← head?_behind] at hc
    exact hnot (hcloses c (by simp [hword, List.head?_append, hc]))
  | cons c cs =>
    have hc : c ∉ separators := h.isWord c (hword ▸ List.mem_cons_self)
    have hcloser : c ∈ closers := hcloses c (by simp [hword])
    exact hc (closers_subset hcloser)

/-! ## Making out an expression -/

/-- Operands are made out in front of the parenthesis that closes them. -/
theorem operandsText_append_inj {es ds : List Expr} {r s : List Char}
    (htold : ∀ e ∈ es, ∀ d ∈ ds, Told (fun e => e.text.toList) Closes e d)
    (hes : ∀ e ∈ es, e.Plain) (hds : ∀ d ∈ ds, d.Plain)
    (h : operandsText es ++ ')' :: r = operandsText ds ++ ')' :: s) : es = ds ∧ r = s := by
  have hcloses (t : List Char) : Closes (')' :: t) := closes_cons (by decide) t
  have hends (t : List Char) : EndsList (')' :: t) := ⟨hcloses t, by simp⟩
  -- Where there is an operand, the list does not begin with a parenthesis that closes it.
  have hne {e : Expr} {es : List Expr} {r s : List Char} (he : e.Plain) :
      ')' :: r ≠ operandsText (e :: es) ++ s := by
    intro heq
    rw [operandsText, toList_listed, List.append_assoc] at heq
    exact he.not_closes_text _ (heq ▸ hcloses r)
  cases es with
  | nil =>
    cases ds with
    | nil => exact ⟨rfl, (List.cons.inj h).2⟩
    | cons d ds => exact absurd h (hne (hds d List.mem_cons_self))
  | cons e es =>
    cases ds with
    | nil => exact absurd h.symm (hne (hes e List.mem_cons_self))
    | cons d ds =>
      obtain ⟨hsame, hrest⟩ := listed_append_inj htold (List.cons_ne_nil e es)
        (List.cons_ne_nil d ds) (hends r) (hends s) h
      exact ⟨hsame, (List.cons.inj hrest).2⟩

/-- Expressions that are single words are told by their spelling. -/
theorem eq_of_mark_eq_none {e f : Expr} (he : e.Plain) (hf : f.Plain) (hmark : e.mark = none)
    (hmark' : f.mark = none) (h : e.text = f.text) : e = f := by
  cases e with
  | literal v =>
    have hv : v.isFloat = false := madeOf_literal.mp he
    cases f with
    | literal w => rw [Literal.text_inj hv (madeOf_literal.mp hf) h]
    | identifier y => exact absurd h.symm ((madeOf_identifier.mp hf).ne_text hv)
    | call g ds => cases hmark'
  | identifier x =>
    cases f with
    | literal w => exact absurd h ((madeOf_identifier.mp he).ne_text (madeOf_literal.mp hf))
    | identifier y => exact congrArg identifier h
    | call g ds => cases hmark'
  | call g es => cases hmark

/-- In front of what closes them, expressions with the same spelling have the same word, the same
    mark, and the same behind it. -/
theorem parts_eq {e f : Expr} (he : e.Plain) (hf : f.Plain) {r s : List Char} (hr : Closes r)
    (hs : Closes s) (h : e.text.toList ++ r = f.text.toList ++ s) :
    e.word = f.word ∧ e.mark = f.mark ∧ e.behind ++ r = f.behind ++ s := by
  rw [toList_text, toList_text, List.append_assoc, List.append_assoc] at h
  obtain ⟨hword, hbehind⟩ := word_append_inj he.isWord hf.isWord (mem_separators_behind hr)
    (mem_separators_behind hs) h
  refine ⟨hword, ?_, hbehind⟩
  rw [← filter_head?_behind (e := e) hr, hbehind, filter_head?_behind hs]

/-- An expression that is a single word is told in front of what closes it. -/
theorem told_text_of_mark_eq_none {e f : Expr} (he : e.Plain) (hf : f.Plain)
    (hmark : e.mark = none) :
    Told (fun e => e.text.toList) Closes e f := by
  intro r s hr hs h
  have hbehind {d : Expr} (hd : d.mark = none) : d.behind = [] := by
    rw [← List.head?_eq_none_iff, head?_behind, hd]
  obtain ⟨hword, hsame, hrest⟩ := parts_eq he hf hr hs h
  have hmark' : f.mark = none := hsame ▸ hmark
  rw [hbehind hmark, hbehind hmark'] at hrest
  refine ⟨eq_of_mark_eq_none he hf hmark hmark' (String.toList_injective ?_), hrest⟩
  rw [toList_text, toList_text, hword, hbehind hmark, hbehind hmark']

/-- **An expression is told** in front of what closes it. The induction is on the expression: its
    word ends where its mark stands, and the mark tells how to go on. -/
theorem told_text {e f : Expr} (he : e.Plain) (hf : f.Plain) :
    Told (fun e => e.text.toList) Closes e f := by
  induction e using inductionOn generalizing f with
  | literal v =>
    cases v with
    | string t =>
      intro r s hr hs h
      obtain ⟨-, hmark, hbehind⟩ := parts_eq he hf hr hs h
      -- Only a text has a quote mark.
      cases f with
      | literal w =>
        cases w with
        | string u =>
          obtain ⟨rfl, hrest⟩ := Literal.quoted_append_inj hr.head?_ne_quoteMark
            hs.head?_ne_quoteMark hbehind
          exact ⟨rfl, hrest⟩
        | _ => cases hmark
      | identifier y => cases hmark
      | call g ds => exact absurd (Option.some.inj hmark) (by decide)
    | _ => exact told_text_of_mark_eq_none he hf rfl
  | identifier x => exact told_text_of_mark_eq_none he hf rfl
  | call g es ih =>
    intro r s hr hs h
    obtain ⟨hword, hmark, hbehind⟩ := parts_eq he hf hr hs h
    -- Only a call has a parenthesis.
    cases f with
    | literal w =>
      cases w with
      | string u => exact absurd (Option.some.inj hmark) (by decide)
      | _ => cases hmark
    | identifier y => cases hmark
    | call g' ds =>
      obtain rfl : g = g' := String.toList_injective hword
      have hes := (plain_call.mp he).2
      have hds := (plain_call.mp hf).2
      simp only [behind, List.cons_append, List.append_assoc, List.cons.injEq, true_and,
        List.nil_append] at hbehind
      obtain ⟨rfl, hrest⟩ := operandsText_append_inj
        (fun e he d hd => ih e he (hes e he) (hds d hd)) hes hds hbehind
      exact ⟨rfl, hrest⟩

end Expr

end QueryTuning
