import QueryTuning.Json.Error

/-!
# Strings inside of a JSON text

The scan of a string checks its form only: a `Quoted` keeps each escape of a 16-bit unit as it
stands, whether or not the units make up characters. That is checked when the string is read.

* `Quoted.scan` : takes a string off the front of a text.
* `Quoted.read` : the characters of a string. Units below `0xD800` and above `0xDFFF` are
  characters of their own; between these bounds a leading unit needs a trailing one behind it.
-/

namespace QueryTuning.Json

/-- What was found at the front of a text, and what is left behind it. Nothing is left where the
    text ended too early or was malformed. -/
structure Scanned (α : Type) where
  /-- What was found. -/
  found : α
  /-- The text behind it. -/
  rest : Option (List Char)

/-- Applies a function to what was found. -/
def Scanned.map {α β : Type} (f : α → β) (s : Scanned α) : Scanned β :=
  ⟨f s.found, s.rest⟩

/-- A part of a string. -/
inductive Piece where
  /-- A character, be it written as it is or behind a backslash. -/
  | char (c : Char)
  /-- A 16-bit unit given by four hexadecimal digits. -/
  | unit (n : Nat)
deriving DecidableEq, Repr

/-- A string as it stands between its quotation marks. -/
structure Quoted where
  /-- Its parts. -/
  pieces : List Piece
  /-- What is wrong behind the last part, if it is not the closing quotation mark. -/
  ending : Option Fault := none
deriving DecidableEq, Repr

namespace Quoted

/-! ## Scanning -/

/-- The value of a hexadecimal digit. -/
def hexValue? (c : Char) : Option Nat :=
  if c.isDigit then some (c.toNat - '0'.toNat)
  else if 'a' ≤ c ∧ c ≤ 'f' then some (c.toNat - 'a'.toNat + 10)
  else if 'A' ≤ c ∧ c ≤ 'F' then some (c.toNat - 'A'.toNat + 10)
  else none

/-- The unit that four hexadecimal digits stand for. -/
def unit? (a b c d : Char) : Option Nat := do
  return (((← hexValue? a) * 16 + (← hexValue? b)) * 16 + (← hexValue? c)) * 16 + (← hexValue? d)

/-- The character that stands behind a backslash for another one. -/
def escaped? (c : Char) : Option Char :=
  match c with
  | '"' => some '"'
  | '\\' => some '\\'
  | '/' => some '/'
  | 'b' => some '\x08'
  | 'f' => some '\x0c'
  | 'n' => some '\n'
  | 'r' => some '\r'
  | 't' => some '\t'
  | _ => none

/-- How many bytes a text takes up. -/
def byteCount (cs : List Char) : Nat := (String.ofList cs).utf8ByteSize

/-- What is wrong where four hexadecimal digits are missing: the text ends too early if there are
    not even four bytes left. -/
def missingDigits (cs : List Char) : Fault :=
  if byteCount cs < 4 then .truncated else .malformed

/-- A string that breaks off. -/
def brokenOff (fault : Fault) : Scanned Quoted := ⟨⟨[], some fault⟩, none⟩

/-- Puts a part in front of a string. -/
def cons (piece : Piece) (q : Quoted) : Quoted := { q with pieces := piece :: q.pieces }

/-- Takes a string off the front of a text, from behind its opening quotation mark up to the
    closing one. Control characters may not stand in a string as they are. -/
def scan : List Char → Scanned Quoted
  | [] => brokenOff .truncated
  | '"' :: rest => ⟨⟨[], none⟩, some rest⟩
  | ['\\'] => brokenOff .truncated
  | '\\' :: 'u' :: a :: b :: c :: d :: rest =>
    match unit? a b c d with
    | some n => (scan rest).map (cons (.unit n))
    | none => brokenOff .malformed
  | '\\' :: 'u' :: rest => brokenOff (missingDigits rest)
  | '\\' :: c :: rest =>
    match escaped? c with
    | some c => (scan rest).map (cons (.char c))
    | none => brokenOff .malformed
  | c :: rest =>
    if c.toNat < 0x20 then brokenOff .malformed else (scan rest).map (cons (.char c))

/-! ## Reading -/

/-- Whether a unit is the first one of a pair. -/
def isLeading (n : Nat) : Bool := 0xD800 ≤ n && n < 0xDC00

/-- Whether a unit is the second one of a pair. -/
def isTrailing (n : Nat) : Bool := 0xDC00 ≤ n && n < 0xE000

/-- The character that a pair of units stands for. -/
def pairChar (leading trailing : Nat) : Char :=
  Char.ofNat (0x10000 + (leading - 0xD800) * 0x400 + (trailing - 0xDC00))

/-- The characters that parts stand for, where `ending` tells what is wrong behind the last one.
    A leading unit at the very end is as wrong as the end is. -/
def decode (ending : Option Fault) : List Piece → Except Fault (List Char)
  | [] =>
    match ending with
    | none => .ok []
    | some fault => .error fault
  | .char c :: rest => (c :: ·) <$> decode ending rest
  | .unit n :: rest =>
    if isTrailing n then .error .malformed
    else if isLeading n then
      match rest with
      | [] => .error (ending.getD .malformed)
      | .char _ :: _ => .error .malformed
      | .unit m :: rest =>
        if isTrailing m then (pairChar n m :: ·) <$> decode ending rest else .error .malformed
    else (Char.ofNat n :: ·) <$> decode ending rest

/-- The text of a string. -/
def read (q : Quoted) : Except Fault String :=
  String.ofList <$> decode q.ending q.pieces

end Quoted

end QueryTuning.Json
