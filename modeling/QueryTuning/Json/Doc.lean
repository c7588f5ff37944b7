import QueryTuning.Json.Number
import QueryTuning.Json.Quoted

/-!
# JSON texts, taken apart as far as they go

A `Doc` is what a JSON text is made of up to the point where it ends too early or is malformed.
What is wrong stands in the tree at the place where it was met, so a reader that walks through the
tree in the order of the text comes upon it at its time.

* `Doc.formFault?` : what is wrong with the form of a value, which is all that is asked of a value
  that is ignored.
* `Doc.strictFault?` : what is wrong with a value that is read but not put to any use yet. Its
  strings and numbers have to be readable, and it may not be nested too deeply.
* `Doc.mismatch` : the error for a value that is not of the kind that is looked for.
-/

namespace QueryTuning.Json

/-- What a value was going to be when it broke off. -/
inductive Begun where
  /-- The null value. -/
  | null
  /-- A truth value. -/
  | bool
  /-- A number. -/
  | number
deriving DecidableEq, Repr

/-- A value of a JSON text. In arrays and objects, `ending` is what is wrong where the closing
    bracket should stand, if it does not stand there. -/
inductive Doc where
  /-- The null value. -/
  | null
  /-- A truth value. -/
  | bool (value : Bool)
  /-- A number. -/
  | number (numeral : Numeral)
  /-- A string, which may break off. -/
  | string (quoted : Quoted)
  /-- An array. -/
  | array (items : List Doc) (ending : Option Fault)
  /-- An object. -/
  | object (members : List (Quoted × Doc)) (ending : Option Fault)
  /-- A word or a number that breaks off. -/
  | broken (begun : Begun) (fault : Fault)
  /-- Nothing that a value could begin with. -/
  | absent (fault : Fault)

namespace Doc

mutual

/-- What is wrong with the form of a value. A number that breaks off is malformed in any case. -/
def formFault? : Doc → Option Fault
  | null | bool _ | number _ => none
  | string q => q.ending
  | array items ending => itemsFormFault? items <|> ending
  | object members ending => membersFormFault? members <|> ending
  | broken .number _ => some .malformed
  | broken _ fault => some fault
  | absent fault => some fault

/-- The first thing that is wrong with the form of some items. -/
def itemsFormFault? : List Doc → Option Fault
  | [] => none
  | d :: rest => formFault? d <|> itemsFormFault? rest

/-- The first thing that is wrong with the form of some members. -/
def membersFormFault? : List (Quoted × Doc) → Option Fault
  | [] => none
  | (name, d) :: rest => name.ending <|> formFault? d <|> membersFormFault? rest

end

/-- The fault of something that cannot be read, if it cannot. -/
def fault? {α : Type} : Except Fault α → Option Fault
  | .ok _ => none
  | .error fault => some fault

mutual

/-- What is wrong with a value in which up to `room` brackets may be open at once. -/
def strictFault? (room : Nat) : Doc → Option Fault
  | null | bool _ => none
  | number n => fault? n.value
  | string q => fault? q.read
  | array items ending =>
    match room with
    | 0 => some .malformed
    | room + 1 => itemsStrictFault? room items <|> ending
  | object members ending =>
    match room with
    | 0 => some .malformed
    | room + 1 => membersStrictFault? room members <|> ending
  | broken _ fault => some fault
  | absent fault => some fault

/-- The first thing that is wrong with some items. -/
def itemsStrictFault? (room : Nat) : List Doc → Option Fault
  | [] => none
  | d :: rest => strictFault? room d <|> itemsStrictFault? room rest

/-- The first thing that is wrong with some members. -/
def membersStrictFault? (room : Nat) : List (Quoted × Doc) → Option Fault
  | [] => none
  | (name, d) :: rest =>
    fault? name.read <|> strictFault? room d <|> membersStrictFault? room rest

end

/-- The error for something that was found instead of what is looked for. -/
def kindError (expected : Expected) (found : Found) : Error :=
  .data (.kind found expected)

/-- What a number is found to be. -/
def foundNumber : Number → Found
  | .whole n => .integer n
  | .real x => .real x

/-- The error for a value that is not of the kind that is looked for. Numbers and strings are read
    first, because they show up in the message. -/
def mismatch (expected : Expected) : Doc → Error
  | null => kindError expected .null
  | bool b => kindError expected (.bool b)
  | number n =>
    match n.value with
    | .ok x => kindError expected (foundNumber x)
    | .error fault => .fault fault
  | string q =>
    match q.read with
    | .ok s => kindError expected (.string s)
    | .error fault => .fault fault
  | array _ _ => kindError expected .array
  | object _ _ => kindError expected .object
  | broken _ fault | absent fault => .fault fault

end Doc

end QueryTuning.Json
