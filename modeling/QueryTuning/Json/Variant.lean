import QueryTuning.Json.Reader

/-!
# Reading variants

A value that has one of several named forms is read from the bare name, if the form holds nothing,
or from an object with the name as its only member. A form that holds nothing is also read from
such an object, with null in it.

* `Variant` : a form with its name.
* `Variant.reader` : how a value of several forms is read.
-/

namespace QueryTuning.Json

variable {α : Type}

/-- What a form holds. -/
inductive Content (α : Type) where
  /-- Nothing: the form is a single value. -/
  | bare (value : α)
  /-- A value that makes up the form. -/
  | holding (read : Reader α)

/-- A form with its name. -/
structure Variant (α : Type) where
  /-- The name. -/
  name : String
  /-- What it holds. -/
  content : Content α

namespace Variant

/-- A form that holds nothing. -/
def bare (name : String) (value : α) : Variant α := ⟨name, .bare value⟩

/-- A form that holds a value. -/
def holding {β : Type} (name : String) (make : β → α) (read : Reader β) : Variant α :=
  ⟨name, .holding fun room d => make <$> read room d⟩

/-- The content of the form of this name. -/
def find (variants : List (Variant α)) (name : String) : Except Error (Content α) :=
  match variants.find? (·.name == name) with
  | some variant => .ok variant.content
  | none => refuse (.unknownVariant name (variants.map Variant.name))

/-- Reads a form from its bare name. -/
def readName (variants : List (Variant α)) (q : Quoted) : Except Error α := do
  let name ← readQuoted q
  match ← find variants name with
  | .bare value => return value
  | .holding _ => refuse (.kind .bareVariant .variantContent)

/-- Reads what a form holds. -/
def readContent (room : Nat) (d : Doc) : Content α → Except Error α
  | .bare value => do
    Reader.unit room d
    return value
  | .holding read => read room d

/-- Makes sure that an object has no further members. -/
def checkClosed (ending : Option Fault) : List (Quoted × Doc) → Except Error Unit
  | [] => checkFault ending
  | _ :: _ => malformed

/-- Reads a form from an object. -/
def readObject (variants : List (Variant α)) (room : Nat) (ending : Option Fault) :
    List (Quoted × Doc) → Except Error α
  | [] => .error (.fault (ending.getD .malformed))
  | (q, d) :: rest => do
    let name ← readQuoted q
    let content ← find variants name
    let a ← readContent room d content
    checkClosed ending rest
    return a

/-- Reads a value of one of several forms. -/
def reader (variants : List (Variant α)) : Reader α
  | _, .string q => readName variants q
  | room, .object members ending =>
    match room with
    | 0 => malformed
    | room + 1 => readObject variants room ending members
  | _, .absent fault => .error (.fault fault)
  | _, .null | _, .bool _ | _, .number _ | _, .array _ _ | _, .broken _ _ => malformed

end Variant

end QueryTuning.Json
