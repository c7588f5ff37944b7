import QueryTuning.Json.Scan
import Std.Data.ExtTreeMap

/-!
# Reading values of a given type

A `Reader` makes a value of its type out of a `Doc`, or tells the first thing that is wrong. Its
first argument is the room that is left: how many brackets may be opened inside of the value, each
inside of the one before. A value that has no room for its bracket counts as malformed.

* `Reader.ofText` : reads a whole text.
* `Reader.list`, `Reader.option`, `Reader.map` : the values that are made of others.

Records and variants have readers of their own in `Json.Record` and `Json.Variant`.
-/

namespace QueryTuning.Json

/-- A way to read a value of a type. -/
abbrev Reader (α : Type) := Nat → Doc → Except Error α

/-- How many brackets of a text that is read may be open at once. -/
def maxNesting : Nat := 127

/-- Stops at a fault, if there is one. -/
def checkFault : Option Fault → Except Error Unit
  | none => .ok ()
  | some fault => .error (.fault fault)

theorem checkFault_eq_ok_iff {fault? : Option Fault} :
    checkFault fault? = .ok () ↔ fault? = none := by
  cases fault? <;> simp [checkFault]

/-- Stops with a mismatch. -/
def refuse {α : Type} (mismatch : Mismatch) : Except Error α := .error (.data mismatch)

/-- Stops because something stands where it may not. -/
def malformed {α : Type} : Except Error α := .error (.fault .malformed)

/-- The text of a string. -/
def readQuoted (q : Quoted) : Except Error String :=
  match q.read with
  | .ok s => .ok s
  | .error fault => .error (.fault fault)

theorem readQuoted_eq_ok_iff {q : Quoted} {s : String} : readQuoted q = .ok s ↔ q.read = .ok s := by
  unfold readQuoted
  cases q.read <;> simp

namespace Reader

variable {α : Type}

/-- Reads a text. Behind the value only blanks may stand. -/
def ofText (read : Reader α) (text : String) : Except Error α := do
  let document := Document.ofText text
  let a ← read maxNesting document.root
  checkFault document.ending
  return a

/-- A text is read if its value is and nothing is wrong behind it. -/
theorem ofText_eq_ok_iff {read : Reader α} {text : String} {a : α} :
    ofText read text = .ok a ↔ read maxNesting (Document.ofText text).root = .ok a ∧
      (Document.ofText text).ending = none := by
  simp only [ofText, bind, Except.bind]
  cases read maxNesting (Document.ofText text).root with
  | error e => simp
  | ok b => cases (Document.ofText text).ending <;> simp [checkFault, pure, Except.pure]

/-! ## Plain values -/

/-- Reads the null value. -/
def unit : Reader Unit
  | _, .null => .ok ()
  | _, d => .error (d.mismatch .unit)

/-- Reads a truth value. -/
def bool : Reader Bool
  | _, .bool b => .ok b
  | _, d => .error (d.mismatch .bool)

/-- Reads a string. -/
def string : Reader String
  | _, .string q => readQuoted q
  | _, d => .error (d.mismatch .string)

/-- Reads a number that a function makes a value of. -/
def number (expected : Expected) (make : Number → Except Error α) : Reader α
  | _, .number n =>
    match n.value with
    | .ok x => make x
    | .error fault => .error (.fault fault)
  | _, d => .error (d.mismatch expected)

/-- Reads a whole number from zero up to below `2 ^ 64`. -/
def uint64 : Reader UInt64 :=
  number .unsigned fun
    | .whole (.ofNat n) => .ok (.ofNat n)
    | .whole n => refuse (.range (.integer n) .unsigned)
    | .real x => refuse (.kind (.real x) .unsigned)

/-- Reads a whole number from `-2 ^ 63` up to below `2 ^ 63`. -/
def int64 : Reader Int64 :=
  number .signed fun
    | .whole n =>
      if n < 0x8000000000000000 then .ok (.ofInt n) else refuse (.range (.integer n) .signed)
    | .real x => refuse (.kind (.real x) .signed)

/-- The floating-point number next to a whole number. -/
def nearestFloat (n : Int) : Float :=
  if n < 0 then (Int64.ofInt n).toFloat else (UInt64.ofNat n.toNat).toFloat

/-- Reads a number as a floating-point number. -/
def real : Reader Binary64 :=
  number .real fun
    | .whole n => .ok (.ofFloat (nearestFloat n))
    | .real x => .ok x

/-! ## Lists, options and maps -/

/-- Reads items one after another. -/
def items (read : Doc → Except Error α) : List Doc → Except Error (List α)
  | [] => .ok []
  | d :: rest => do
    let a ← read d
    let more ← items read rest
    return a :: more

/-- Reads an array of any length. -/
def list (read : Reader α) : Reader (List α)
  | room, .array ds ending =>
    match room with
    | 0 => malformed
    | room + 1 => do
      let as ← items (read room) ds
      checkFault ending
      return as
  | _, d => .error (d.mismatch .array)

/-- Reads a value that may be missing. -/
def option (read : Reader α) : Reader (Option α)
  | _, .null => .ok none
  | _, .broken .null fault => .error (.fault fault)
  | room, d => some <$> read room d

/-- Reads the members of a map one after another and enters them into a map. -/
def entries (read : Doc → Except Error α) :
    List (Quoted × Doc) → Std.ExtTreeMap String α → Except Error (Std.ExtTreeMap String α)
  | [], map => .ok map
  | (name, d) :: rest, map => do
    let key ← readQuoted name
    let a ← read d
    entries read rest (map.insert key a)

/-- Reads an object of any names. The last member of a name counts. -/
def map (read : Reader α) : Reader (Std.ExtTreeMap String α)
  | room, .object members ending =>
    match room with
    | 0 => malformed
    | room + 1 => do
      let map ← entries (read room) members ∅
      checkFault ending
      return map
  | _, d => .error (d.mismatch .object)

end Reader

end QueryTuning.Json
