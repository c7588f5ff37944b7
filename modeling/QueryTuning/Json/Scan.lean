import QueryTuning.Json.Doc

/-!
# Taking JSON texts apart

`Document.ofText` takes a text apart into the tree of its value and what is wrong behind it. The
functions below work from the front of a text; each of them gives what it found and the text that
is left, or no text if what it found is broken.

The fuel of `scanValue` bounds the depth of its recursion. Among any three calls that lie directly
inside of one another there is one that takes a character off the text, so three times the length
of the text and one more is enough.
-/

namespace QueryTuning.Json

/-- What may stand between the parts of a text. -/
def isBlank (c : Char) : Bool :=
  c == ' ' || c == '\n' || c == '\t' || c == '\r'

/-- The text behind the blanks at its front. -/
def skipBlanks (cs : List Char) : List Char := cs.dropWhile isBlank

/-- What is wrong with a text that does not go on as it has to. -/
def faultAt : List Char → Fault
  | [] => .truncated
  | _ :: _ => .malformed

/-! ## Words and numbers -/

/-- Takes the remainder of a word off the front of a text. -/
def scanWord : List Char → List Char → Except Fault (List Char)
  | [], cs => .ok cs
  | _ :: _, [] => .error .truncated
  | w :: ws, c :: cs => if w = c then scanWord ws cs else .error .malformed

/-- Takes a word that stands for a value off the front of a text. -/
def scanConstant (word : List Char) (value : Doc) (begun : Begun) (cs : List Char) :
    Scanned Doc :=
  match scanWord word cs with
  | .ok rest => ⟨value, some rest⟩
  | .error fault => ⟨.broken begun fault, none⟩

/-- Takes a nonempty run of digits off the front of a text. -/
def scanDigits (cs : List Char) : Except Fault (List Char × List Char) :=
  match cs.takeWhile Char.isDigit with
  | [] => .error (faultAt cs)
  | digits => .ok (digits, cs.dropWhile Char.isDigit)

/-- Takes the digits in front of the point off the front of a text. A zero stands alone. -/
def scanWhole (cs : List Char) : Except Fault (List Char × List Char) := do
  let (digits, rest) ← scanDigits cs
  match digits with
  | '0' :: _ :: _ => .error .malformed
  | _ => .ok (digits, rest)

/-- Takes a point and the digits behind it off the front of a text, if there is a point. -/
def scanFraction (cs : List Char) : Except Fault (List Char × List Char) :=
  match cs with
  | '.' :: rest => scanDigits rest
  | _ => .ok ([], cs)

/-- Takes a sign off the front of a text, if there is one. -/
def scanSign (cs : List Char) : Option Sign × List Char :=
  match cs with
  | '+' :: rest => (some .plus, rest)
  | '-' :: rest => (some .minus, rest)
  | _ => (none, cs)

/-- Takes the sign and the digits of a power of ten off the front of a text. -/
def scanExponentDigits (upper : Bool) (cs : List Char) :
    Except Fault (Option Exponent × List Char) := do
  let (sign, rest) := scanSign cs
  let (digits, rest) ← scanDigits rest
  return (some { upper, sign, digits }, rest)

/-- Takes a power of ten off the front of a text, if there is one. -/
def scanExponent (cs : List Char) : Except Fault (Option Exponent × List Char) :=
  match cs with
  | 'e' :: rest => scanExponentDigits false rest
  | 'E' :: rest => scanExponentDigits true rest
  | _ => .ok (none, cs)

/-- Takes a numeral without its minus sign off the front of a text. -/
def scanUnsigned (negative : Bool) (cs : List Char) : Except Fault (Numeral × List Char) := do
  let (whole, rest) ← scanWhole cs
  let (fraction, rest) ← scanFraction rest
  let (exponent, rest) ← scanExponent rest
  return ({ negative, whole, fraction, exponent }, rest)

/-- Takes a numeral off the front of a text. -/
def scanNumeral (cs : List Char) : Except Fault (Numeral × List Char) :=
  match cs with
  | '-' :: rest => scanUnsigned true rest
  | _ => scanUnsigned false cs

/-- Takes a number off the front of a text. -/
def scanNumber (cs : List Char) : Scanned Doc :=
  match scanNumeral cs with
  | .ok (n, rest) => ⟨.number n, some rest⟩
  | .error fault => ⟨.broken .number fault, none⟩

/-! ## Values -/

/-- The parts of an array or object with what is wrong behind them, if anything is. -/
abbrev Series (α : Type) := List α × Option Fault

/-- A series that goes no further. Behind a broken part nothing is looked at any more. -/
def lastOf {α : Type} (part : α) (ending : Option Fault) (rest : Option (List Char)) :
    Scanned (Series α) :=
  ⟨([part], ending), rest⟩

/-- Puts a part in front of a series. -/
def Series.cons {α : Type} (part : α) (s : Series α) : Series α := (part :: s.1, s.2)

/-- A member without a name, for a place where a name is missing. -/
def namelessMember (fault : Fault) : Quoted × Doc := (⟨[], some fault⟩, .absent fault)

mutual

/-- Takes a value off the front of a text, with the blanks before it. -/
def scanValue : Nat → List Char → Scanned Doc
  | 0, _ => ⟨.absent .malformed, none⟩
  | fuel + 1, cs =>
    match skipBlanks cs with
    | [] => ⟨.absent .truncated, none⟩
    | '"' :: rest => (Quoted.scan rest).map .string
    | '[' :: rest => scanArray fuel rest
    | '{' :: rest => scanObject fuel rest
    | 'n' :: rest => scanConstant ['u', 'l', 'l'] .null .null rest
    | 't' :: rest => scanConstant ['r', 'u', 'e'] (.bool true) .bool rest
    | 'f' :: rest => scanConstant ['a', 'l', 's', 'e'] (.bool false) .bool rest
    | c :: rest =>
      if c = '-' ∨ c.isDigit then scanNumber (c :: rest) else ⟨.absent .malformed, none⟩

/-- Takes an array off the front of a text, from behind its opening bracket. -/
def scanArray : Nat → List Char → Scanned Doc
  | 0, _ => ⟨.absent .malformed, none⟩
  | fuel + 1, cs =>
    match skipBlanks cs with
    | [] => ⟨.array [] (some .truncated), none⟩
    | ']' :: rest => ⟨.array [] none, some rest⟩
    | _ => (scanItems fuel cs).map fun s => .array s.1 s.2

/-- Takes items off the front of a text, up to the closing bracket. -/
def scanItems : Nat → List Char → Scanned (Series Doc)
  | 0, _ => ⟨([], some .malformed), none⟩
  | fuel + 1, cs =>
    let item := scanValue fuel cs
    match item.rest.map skipBlanks with
    | none => lastOf item.found (some .malformed) none
    | some (']' :: rest) => lastOf item.found none (some rest)
    | some (',' :: rest) => (scanItems fuel rest).map (.cons item.found)
    | some rest => lastOf item.found (some (faultAt rest)) none

/-- Takes an object off the front of a text, from behind its opening bracket. -/
def scanObject : Nat → List Char → Scanned Doc
  | 0, _ => ⟨.absent .malformed, none⟩
  | fuel + 1, cs =>
    match skipBlanks cs with
    | [] => ⟨.object [] (some .truncated), none⟩
    | '}' :: rest => ⟨.object [] none, some rest⟩
    | '"' :: rest => (scanMembers fuel rest).map fun s => .object s.1 s.2
    | _ => ⟨.object [] (some .malformed), none⟩

/-- Takes members off the front of a text, from behind the opening quotation mark of the first
    name up to the closing bracket. -/
def scanMembers : Nat → List Char → Scanned (Series (Quoted × Doc))
  | 0, _ => ⟨([], some .malformed), none⟩
  | fuel + 1, cs =>
    let name := Quoted.scan cs
    match name.rest.map skipBlanks with
    | none => lastOf (name.found, .absent .malformed) (some .malformed) none
    | some (':' :: rest) =>
      let value := scanValue fuel rest
      let member := (name.found, value.found)
      match value.rest.map skipBlanks with
      | none => lastOf member (some .malformed) none
      | some ('}' :: rest) => lastOf member none (some rest)
      | some (',' :: rest) =>
        match skipBlanks rest with
        | '"' :: rest => (scanMembers fuel rest).map (.cons member)
        | rest => ⟨([member, namelessMember (faultAt rest)], some .malformed), none⟩
      | some rest => lastOf member (some (faultAt rest)) none
    | some rest => lastOf (name.found, .absent (faultAt rest)) (some .malformed) none

end

/-! ## Documents -/

/-- A text that was taken apart. -/
structure Document where
  /-- The value. -/
  root : Doc
  /-- What is wrong behind the value. -/
  ending : Option Fault

/-- What is wrong if this is left behind the value: nothing but blanks may be. -/
def leftover (cs : List Char) : Option Fault :=
  if (skipBlanks cs).isEmpty then none else some .malformed

/-- Takes a text apart. -/
def Document.ofChars (cs : List Char) : Document :=
  let value := scanValue (3 * cs.length + 1) cs
  { root := value.found
    ending := match value.rest with
      | none => some .malformed
      | some rest => leftover rest }

/-- Takes a text apart. -/
def Document.ofText (text : String) : Document := .ofChars text.toList

end QueryTuning.Json
