import QueryTuning.Proofs.Json.Numeral
import QueryTuning.Proofs.Json.Quoted

/-!
# Written values

The compact text of a value is taken apart into the value that was written, with nothing wrong
anywhere.

* `Json.WellFormed` : every numeral inside of a value is one that JSON admits.
* `Json.Doc.ofJson` : a value, taken apart as it is found in a text.
* `Json.document_ofText` : the text of a value is taken apart into the value.
-/

namespace QueryTuning.Json

open Numeral

mutual

/-- Every numeral inside of a value is one that JSON admits. -/
def WellFormed : Json → Prop
  | null | bool _ | string _ => True
  | number n => n.WellFormed
  | array items => ItemsWellFormed items
  | object members => MembersWellFormed members

/-- Every numeral inside of some items is one that JSON admits. -/
def ItemsWellFormed : List Json → Prop
  | [] => True
  | v :: rest => v.WellFormed ∧ ItemsWellFormed rest

/-- Every numeral inside of some members is one that JSON admits. -/
def MembersWellFormed : List (String × Json) → Prop
  | [] => True
  | (_, v) :: rest => v.WellFormed ∧ MembersWellFormed rest

end

/-- Items have numerals that JSON admits if each of them has. -/
theorem itemsWellFormed_iff (vs : List Json) :
    ItemsWellFormed vs ↔ ∀ v ∈ vs, v.WellFormed := by
  induction vs with
  | nil => simp [ItemsWellFormed]
  | cons v vs ih => rw [ItemsWellFormed, ih, List.forall_mem_cons]

/-- Members have numerals that JSON admits if the value of each of them has. -/
theorem membersWellFormed_iff (members : List (String × Json)) :
    MembersWellFormed members ↔ ∀ m ∈ members, m.2.WellFormed := by
  induction members with
  | nil => simp [MembersWellFormed]
  | cons m members ih => rw [MembersWellFormed, ih, List.forall_mem_cons]

namespace Doc

mutual

/-- A value, taken apart as it is found in a text. -/
def ofJson : Json → Doc
  | .null => null
  | .bool b => bool b
  | .number n => number n
  | .string s => string (.ofString s)
  | .array items => array (ofItems items) none
  | .object members => object (ofMembers members) none

/-- Items, taken apart. -/
def ofItems : List Json → List Doc
  | [] => []
  | v :: rest => ofJson v :: ofItems rest

/-- Members, taken apart. -/
def ofMembers : List (String × Json) → List (Quoted × Doc)
  | [] => []
  | (name, v) :: rest => (.ofString name, ofJson v) :: ofMembers rest

end

theorem ofMembers_eq_map (members : List (String × Json)) :
    ofMembers members = members.map fun m => (.ofString m.1, ofJson m.2) := by
  induction members with
  | nil => rfl
  | cons m members ih => rw [ofMembers, ih, List.map_cons]

mutual

/-- Nothing is wrong with the form of a written value. -/
theorem formFault?_ofJson : ∀ v : Json, (ofJson v).formFault? = none
  | .null | .bool _ | .number _ | .string _ => rfl
  | .array items => by rw [ofJson, formFault?, itemsFormFault?_ofItems items]; rfl
  | .object members => by rw [ofJson, formFault?, membersFormFault?_ofMembers members]; rfl

theorem itemsFormFault?_ofItems : ∀ vs : List Json, itemsFormFault? (ofItems vs) = none
  | [] => rfl
  | v :: rest => by
    rw [ofItems, itemsFormFault?, formFault?_ofJson v, itemsFormFault?_ofItems rest]
    rfl

theorem membersFormFault?_ofMembers :
    ∀ members : List (String × Json), membersFormFault? (ofMembers members) = none
  | [] => rfl
  | (name, v) :: rest => by
    rw [ofMembers, membersFormFault?, formFault?_ofJson v, membersFormFault?_ofMembers rest]
    rfl

end

end Doc

/-! ## Single steps of the scan -/

/-- In front of what is no blank nothing is skipped. -/
theorem skipBlanks_cons {c : Char} (hc : isBlank c = false) (cs : List Char) :
    skipBlanks (c :: cs) = c :: cs := by
  simp [skipBlanks, hc]

/-- Digits are no blanks. -/
theorem isBlank_of_isDigit {c : Char} (hc : c.isDigit = true) : isBlank c = false := by
  have hspace : c ≠ ' ' := ne_of_isDigit hc rfl
  have hline : c ≠ '\n' := ne_of_isDigit hc rfl
  have htab : c ≠ '\t' := ne_of_isDigit hc rfl
  have hreturn : c ≠ '\r' := ne_of_isDigit hc rfl
  simp [isBlank, hspace, hline, htab, hreturn]

/-- A comma or a closing bracket does not prolong a numeral. -/
theorem ends_cons {c : Char} (hc : c = ',' ∨ c = ']' ∨ c = '}') (cs : List Char) :
    Ends (c :: cs) := by
  intro d hd
  obtain rfl : c = d := by simpa using hd
  rcases hc with rfl | rfl | rfl <;> decide

/-- What begins like a numeral is looked at as a number. -/
theorem scanValue_of_number {c : Char} (hc : c = '-' ∨ c.isDigit = true) (fuel : Nat)
    (cs : List Char) : scanValue (fuel + 1) (c :: cs) = scanNumber (c :: cs) := by
  have hblank : isBlank c = false := by
    rcases hc with rfl | hdigit
    · rfl
    · exact isBlank_of_isDigit hdigit
  have hne {d : Char} (hminus : '-' ≠ d) (hd : d.isDigit = false) : c ≠ d := by
    rcases hc with rfl | hdigit
    · exact hminus
    · exact ne_of_isDigit hdigit hd
  rw [scanValue, skipBlanks_cons hblank]
  -- Neither a sign nor a digit is what any other value begins with.
  split
  case h_1 heq => cases heq
  case h_8 heq =>
    obtain ⟨rfl, rfl⟩ := List.cons.inj heq
    rw [if_pos hc]
  all_goals
    rename_i heq
    exact absurd (List.cons.inj heq).1 (hne (by decide) (by decide))

/-- An array that is not closed at once has items. -/
theorem scanArray_of_items {c : Char} (hblank : isBlank c = false) (hclose : c ≠ ']')
    (fuel : Nat) (cs : List Char) :
    scanArray (fuel + 1) (c :: cs)
      = (scanItems fuel (c :: cs)).map fun s => .array s.1 s.2 := by
  rw [scanArray, skipBlanks_cons hblank]
  split
  · rename_i heq
    cases heq
  · rename_i heq
    exact absurd (List.cons.inj heq).1 hclose
  · rfl

/-- The last item stands in front of the closing bracket. -/
theorem scanItems_last {fuel : Nat} {cs rest : List Char} {d : Doc}
    (hvalue : scanValue fuel cs = ⟨d, some (']' :: rest)⟩) :
    scanItems (fuel + 1) cs = ⟨([d], none), some rest⟩ := by
  rw [scanItems, hvalue]
  rfl

/-- Behind an item and a comma come the other items. -/
theorem scanItems_more {fuel : Nat} {cs rest : List Char} {d : Doc}
    (hvalue : scanValue fuel cs = ⟨d, some (',' :: rest)⟩) :
    scanItems (fuel + 1) cs = (scanItems fuel rest).map (.cons d) := by
  rw [scanItems, hvalue]
  rfl

/-- The last member stands in front of the closing bracket. -/
theorem scanMembers_last {fuel : Nat} {cs more rest : List Char} {name : Quoted} {d : Doc}
    (hname : Quoted.scan cs = ⟨name, some (':' :: more)⟩)
    (hvalue : scanValue fuel more = ⟨d, some ('}' :: rest)⟩) :
    scanMembers (fuel + 1) cs = ⟨([(name, d)], none), some rest⟩ := by
  rw [scanMembers, hname]
  simp only [Option.map_some, skipBlanks_cons (show isBlank ':' = false from rfl), hvalue]
  rfl

/-- Behind a member and a comma come the other members. -/
theorem scanMembers_more {fuel : Nat} {cs more rest : List Char} {name : Quoted} {d : Doc}
    (hname : Quoted.scan cs = ⟨name, some (':' :: more)⟩)
    (hvalue : scanValue fuel more = ⟨d, some (',' :: '"' :: rest)⟩) :
    scanMembers (fuel + 1) cs = (scanMembers fuel rest).map (.cons (name, d)) := by
  rw [scanMembers, hname]
  simp only [Option.map_some, skipBlanks_cons (show isBlank ':' = false from rfl), hvalue]
  rfl

/-! ## Whole values -/

/-- The text of a value begins neither with a blank nor with a closing bracket. -/
theorem chars_eq_cons {v : Json} (h : v.WellFormed) :
    ∃ c cs, v.chars = c :: cs ∧ isBlank c = false ∧ c ≠ ']' := by
  cases v with
  | null => exact ⟨'n', _, by rw [chars], rfl, by decide⟩
  | bool b =>
    cases b with
    | false => exact ⟨'f', _, by rw [chars], rfl, by decide⟩
    | true => exact ⟨'t', _, by rw [chars], rfl, by decide⟩
  | number n =>
    rw [WellFormed] at h
    obtain ⟨c, cs, hchars, hc⟩ := exists_chars_eq_cons h
    refine ⟨c, cs, by rw [chars, hchars], ?_, ?_⟩
    · rcases hc with rfl | hdigit
      · rfl
      · exact isBlank_of_isDigit hdigit
    · rcases hc with rfl | hdigit
      · decide
      · exact ne_of_isDigit hdigit rfl
  | string s => exact ⟨'"', _, by rw [chars, quotedChars], rfl, by decide⟩
  | array items => exact ⟨'[', _, by rw [chars], rfl, by decide⟩
  | object members => exact ⟨'{', _, by rw [chars], rfl, by decide⟩

/-- An array is found if its items are. -/
theorem scanArray_chars {items : List Json} (h : ItemsWellFormed items) {fuel : Nat}
    {rest : List Char}
    (hitems : items ≠ [] → scanItems fuel (itemsChars items ++ ']' :: rest)
      = ⟨(Doc.ofItems items, none), some rest⟩) :
    scanArray (fuel + 1) (itemsChars items ++ ']' :: rest)
      = ⟨.array (Doc.ofItems items) none, some rest⟩ := by
  cases items with
  | nil => rfl
  | cons v vs =>
    obtain ⟨hv, -⟩ := h
    obtain ⟨c, cs, hchars, hblank, hclose⟩ := chars_eq_cons hv
    -- The first item does not begin like a closing bracket.
    have hfound := hitems (List.cons_ne_nil v vs)
    rw [itemsChars, hchars, List.cons_append, List.cons_append] at hfound ⊢
    rw [scanArray_of_items hblank hclose, hfound]
    rfl

/-- The text of some members begins with the quotation mark of the first name. -/
theorem membersChars_eq_cons {members : List (String × Json)} (h : members ≠ []) :
    membersChars members = '"' :: (membersChars members).tail := by
  match members, h with
  | (name, v) :: rest, _ => rw [membersChars, quotedChars]; rfl

/-- An object is found if its members are. -/
theorem scanObject_chars {members : List (String × Json)} {fuel : Nat} {rest : List Char}
    (hmembers : members ≠ [] → scanMembers fuel ((membersChars members).tail ++ '}' :: rest)
      = ⟨(Doc.ofMembers members, none), some rest⟩) :
    scanObject (fuel + 1) (membersChars members ++ '}' :: rest)
      = ⟨.object (Doc.ofMembers members) none, some rest⟩ := by
  by_cases hempty : members = []
  · subst hempty
    rfl
  · rw [membersChars_eq_cons hempty, List.cons_append, scanObject,
      skipBlanks_cons (show isBlank '"' = false from rfl)]
    simp only [hmembers hempty]
    rfl

/-- Whatever is found has a text, so there is fuel for it. -/
theorem exists_fuel {v : Json} (h : v.WellFormed) {fuel : Nat}
    (hfuel : 3 * v.chars.length ≤ fuel) : ∃ k, fuel = k + 3 := by
  obtain ⟨c, cs, hchars, -⟩ := chars_eq_cons h
  rw [hchars, List.length_cons] at hfuel
  exact ⟨fuel - 3, by omega⟩

-- The scan of a value takes the fuel down by one, that of an array or an object by two before the
-- first item or member, while the bracket takes three off what the fuel has to cover.
mutual

/-- **A written value is found**, in front of what cannot prolong a numeral. -/
theorem scanValue_chars : ∀ v : Json, v.WellFormed → ∀ (fuel : Nat) (rest : List Char),
    3 * v.chars.length ≤ fuel → Ends rest →
      scanValue fuel (v.chars ++ rest) = ⟨.ofJson v, some rest⟩
  | .null, h, fuel, rest, hfuel, _ => by
    obtain ⟨k, rfl⟩ := exists_fuel h hfuel
    rfl
  | .bool true, h, fuel, rest, hfuel, _ => by
    obtain ⟨k, rfl⟩ := exists_fuel h hfuel
    rfl
  | .bool false, h, fuel, rest, hfuel, _ => by
    obtain ⟨k, rfl⟩ := exists_fuel h hfuel
    rfl
  | .number n, h, fuel, rest, hfuel, hrest => by
    obtain ⟨k, rfl⟩ := exists_fuel h hfuel
    rw [WellFormed] at h
    obtain ⟨c, cs, hchars, hc⟩ := exists_chars_eq_cons h
    have hscan := scanNumeral_chars h hrest
    rw [hchars, List.cons_append] at hscan
    rw [chars, hchars, List.cons_append, scanValue_of_number hc, scanNumber, hscan]
    rfl
  | .string s, h, fuel, rest, hfuel, _ => by
    obtain ⟨k, rfl⟩ := exists_fuel h hfuel
    simp only [chars, quotedChars, List.cons_append, List.append_assoc, List.nil_append]
    rw [scanValue, skipBlanks_cons rfl]
    simp only [Quoted.scan_written s rest]
    rfl
  | .array items, h, fuel, rest, hfuel, _ => by
    obtain ⟨k, rfl⟩ := exists_fuel h hfuel
    rw [WellFormed] at h
    simp only [chars, List.length_cons, List.length_append, List.length_nil] at hfuel
    simp only [chars, List.cons_append, List.append_assoc, List.nil_append]
    rw [scanValue, skipBlanks_cons rfl]
    exact scanArray_chars h fun hne => scanItems_chars items hne h (k + 1) rest (by omega)
  | .object members, h, fuel, rest, hfuel, _ => by
    obtain ⟨k, rfl⟩ := exists_fuel h hfuel
    rw [WellFormed] at h
    simp only [chars, List.length_cons, List.length_append, List.length_nil] at hfuel
    simp only [chars, List.cons_append, List.append_assoc, List.nil_append]
    rw [scanValue, skipBlanks_cons rfl]
    exact scanObject_chars fun hne => scanMembers_chars members hne h (k + 1) rest (by omega)

/-- Written items are found, up to the closing bracket. -/
theorem scanItems_chars : ∀ vs : List Json, vs ≠ [] → ItemsWellFormed vs →
    ∀ (fuel : Nat) (rest : List Char), 3 * (itemsChars vs).length + 1 ≤ fuel →
      scanItems fuel (itemsChars vs ++ ']' :: rest) = ⟨(Doc.ofItems vs, none), some rest⟩
  | [v], _, ⟨hv, _⟩, fuel + 1, rest, hfuel => by
    simp only [itemsChars, List.isEmpty_nil, if_true, List.append_nil] at hfuel ⊢
    exact scanItems_last (scanValue_chars v hv fuel _ (by omega) (ends_cons (.inr (.inl rfl)) rest))
  | v :: w :: vs, _, ⟨hv, hmore⟩, fuel + 1, rest, hfuel => by
    rw [itemsChars] at hfuel ⊢
    simp only [List.isEmpty_cons, Bool.false_eq_true, if_false, List.append_assoc,
      List.length_append, List.length_cons, List.cons_append] at hfuel ⊢
    -- What follows the first item is a comma, which does not prolong a numeral.
    have hvalue := scanValue_chars v hv fuel _ (by omega)
      (ends_cons (.inl rfl) (itemsChars (w :: vs) ++ ']' :: rest))
    rw [scanItems_more hvalue,
      scanItems_chars (w :: vs) (List.cons_ne_nil w vs) hmore fuel rest (by omega)]
    rfl

/-- Written members are found, from behind the first quotation mark up to the closing bracket. -/
theorem scanMembers_chars : ∀ ms : List (String × Json), ms ≠ [] → MembersWellFormed ms →
    ∀ (fuel : Nat) (rest : List Char), 3 * (membersChars ms).length + 1 ≤ fuel →
      scanMembers fuel ((membersChars ms).tail ++ '}' :: rest)
        = ⟨(Doc.ofMembers ms, none), some rest⟩
  | [(name, v)], _, ⟨hv, _⟩, fuel + 1, rest, hfuel => by
    simp only [membersChars, quotedChars, List.isEmpty_nil, if_true, List.append_nil,
      List.append_assoc, List.length_append, List.length_cons, List.cons_append, List.nil_append,
      List.tail_cons] at hfuel ⊢
    exact scanMembers_last (Quoted.scan_written name _)
      (scanValue_chars v hv fuel _ (by omega) (ends_cons (.inr (.inr rfl)) rest))
  | (name, v) :: m :: ms, _, ⟨hv, hmore⟩, fuel + 1, rest, hfuel => by
    have hne : m :: ms ≠ [] := List.cons_ne_nil m ms
    rw [membersChars] at hfuel ⊢
    simp only [quotedChars, List.isEmpty_cons, Bool.false_eq_true, if_false, List.append_assoc,
      List.length_append, List.length_cons, List.cons_append, List.nil_append,
      List.tail_cons] at hfuel ⊢
    have hvalue := scanValue_chars v hv fuel _ (by omega)
      (ends_cons (.inl rfl) (membersChars (m :: ms) ++ '}' :: rest))
    -- The quotation mark of the next name is taken off before its member is scanned.
    rw [membersChars_eq_cons hne, List.cons_append] at hvalue ⊢
    rw [scanMembers_more (Quoted.scan_written name _) hvalue,
      scanMembers_chars (m :: ms) hne hmore fuel rest (by omega)]
    rfl

end

/-- **The text of a value is taken apart into the value**, and nothing is wrong behind it. -/
theorem document_ofText {v : Json} (h : v.WellFormed) :
    Document.ofText v.text = ⟨.ofJson v, none⟩ := by
  have hfound := scanValue_chars v h (3 * v.chars.length + 1) [] (by omega) ends_nil
  rw [List.append_nil] at hfound
  rw [Document.ofText, Json.text, String.toList_ofList, Document.ofChars]
  simp only [hfound]
  rfl

end QueryTuning.Json
