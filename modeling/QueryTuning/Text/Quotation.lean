import QueryTuning.Text.Hidden

/-!
# Quoted texts in messages

`Text.quote` shows a text inside a message: between quotation marks, with everything that would
not show on its own spelled out. A hidden character that has no escape of its own is written by its
code point.
-/

namespace QueryTuning.Text

/-- The code point of a character in lower-case hexadecimal digits. -/
def codePoint (c : Char) : List Char := Nat.toDigits 16 c.toNat

/-- A character as it stands in a quotation. -/
def quoteChar (c : Char) : List Char :=
  match c with
  | '\x00' => ['\\', '0']
  | '\t' => ['\\', 't']
  | '\n' => ['\\', 'n']
  | '\r' => ['\\', 'r']
  | '"' => ['\\', '"']
  | '\\' => ['\\', '\\']
  | _ => if isHidden c then ['\\', 'u', '{'] ++ codePoint c ++ ['}'] else [c]

/-- A text between quotation marks. -/
def quote (s : String) : String :=
  String.ofList ('"' :: s.toList.flatMap quoteChar ++ ['"'])

end QueryTuning.Text
