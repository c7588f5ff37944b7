import QueryTuning.Decimal.Style

/-!
# JSON values

A `Json` is a value as it is written: numbers keep their spelling, and the members of an object
keep their order and may repeat a name. `Json.text` is its compact text, without any blanks.

* `Json.chars` : the characters of the compact text.
* `Json.escape` : what a character becomes inside of a string.
* `Json.nesting` : how many brackets of the text are open at once, at most.
-/

namespace QueryTuning

/-- A JSON value. -/
inductive Json where
  /-- The null value. -/
  | null
  /-- A truth value. -/
  | bool (value : Bool)
  /-- A number as it is spelled. -/
  | number (numeral : Numeral)
  /-- A string. -/
  | string (value : String)
  /-- An array. -/
  | array (items : List Json)
  /-- An object. -/
  | object (members : List (String × Json))

namespace Json

/-! ## Values for what queries are made of -/

/-- A natural number. -/
def nat (n : Nat) : Json := .number (.ofNat n)

/-- An integer. -/
def int (n : Int) : Json := .number (.ofInt n)

/-- A floating-point number. What is no finite number has no numeral and becomes null. -/
def real (x : Binary64) : Json :=
  if x.isFinite then .number (Style.compact.numeral x) else .null

/-- A value that may be missing; null stands for none. -/
def optional {α : Type} (write : α → Json) : Option α → Json
  | some a => write a
  | none => .null

/-- A variant with what it holds. -/
def variant (name : String) (content : Json) : Json := .object [(name, content)]

/-! ## Text -/

/-- What a character becomes inside of a string: quotation marks and backslashes stand behind a
    backslash, and control characters are spelled out. -/
def escape (c : Char) : List Char :=
  match c with
  | '"' => ['\\', '"']
  | '\\' => ['\\', '\\']
  | '\x08' => ['\\', 'b']
  | '\x0c' => ['\\', 'f']
  | '\n' => ['\\', 'n']
  | '\r' => ['\\', 'r']
  | '\t' => ['\\', 't']
  | _ =>
    if c.toNat < 0x20 then
      ['\\', 'u', '0', '0', (c.toNat / 16).digitChar, (c.toNat % 16).digitChar]
    else
      [c]

/-- A string between its quotation marks. -/
def quotedChars (s : String) : List Char :=
  '"' :: (s.toList.flatMap escape ++ ['"'])

mutual

/-- The characters of the compact text. -/
def chars : Json → List Char
  | null => ['n', 'u', 'l', 'l']
  | bool true => ['t', 'r', 'u', 'e']
  | bool false => ['f', 'a', 'l', 's', 'e']
  | number n => n.chars
  | string s => quotedChars s
  | array items => '[' :: (itemsChars items ++ [']'])
  | object members => '{' :: (membersChars members ++ ['}'])

/-- Items with commas between them. -/
def itemsChars : List Json → List Char
  | [] => []
  | v :: rest => v.chars ++ (if rest.isEmpty then [] else ',' :: itemsChars rest)

/-- Members with commas between them. -/
def membersChars : List (String × Json) → List Char
  | [] => []
  | (name, v) :: rest =>
    quotedChars name ++ ':' :: v.chars
      ++ (if rest.isEmpty then [] else ',' :: membersChars rest)

end

/-- The compact text of a value. -/
def text (v : Json) : String := String.ofList v.chars

mutual

/-- The greatest number of brackets that are open at once in the text of a value. -/
def nesting : Json → Nat
  | null | bool _ | number _ | string _ => 0
  | array items => 1 + itemsNesting items
  | object members => 1 + membersNesting members

/-- The greatest nesting among items. -/
def itemsNesting : List Json → Nat
  | [] => 0
  | v :: rest => max v.nesting (itemsNesting rest)

/-- The greatest nesting among members. -/
def membersNesting : List (String × Json) → Nat
  | [] => 0
  | (_, v) :: rest => max v.nesting (membersNesting rest)

end

end Json

end QueryTuning
