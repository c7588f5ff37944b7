import QueryTuning.Json.Reader

/-!
# Reading records

A record is read from an object that has its fields in any order, or from an array that has them
in the order in which they are declared. In an object unknown members are ignored and no field may
occur twice. What has been read so far is kept in a draft, and when the closing bracket has been
met, the record is made of the draft.

* `Field` : a field of a record.
* `Record` : a description of a record.
* `Record.reader` : how the record is read.
-/

namespace QueryTuning.Json

variable {σ α β : Type}

/-- A field of a record, as part of a draft. -/
structure Field (σ : Type) where
  /-- The name in an object. -/
  name : String
  /-- Whether a draft has the field already. -/
  isSet : σ → Bool
  /-- Reads the field and adds it to a draft. -/
  read : Reader (σ → σ)

/-- A field that a draft keeps in an optional component. -/
def Field.of (name : String) (get : σ → Option β) (set : σ → β → σ) (read : Reader β) :
    Field σ where
  name
  isSet draft := (get draft).isSome
  read room d := (fun b draft => set draft b) <$> read room d

/-- The component of a field that a record cannot do without. -/
def required (name : String) : Option β → Except Error β
  | some b => .ok b
  | none => refuse (.missingField name)

theorem required_eq_ok_iff {name : String} {o : Option β} {b : β} :
    required name o = .ok b ↔ o = some b := by
  cases o <;> simp [required, refuse]

/-- A description of a record. -/
structure Record (σ α : Type) where
  /-- The name that messages use. -/
  name : String
  /-- The fields in the order in which they are declared. -/
  fields : List (Field σ)
  /-- How many of them an array has to have at least. -/
  needed : Nat := fields.length
  /-- The draft without any field. -/
  start : σ
  /-- Makes the record of a draft, if it has all fields that are needed. -/
  finish : σ → Except Error α

namespace Record

/-- Reads the members of an object one after another. -/
def readMembers (fields : List (Field σ)) (room : Nat) :
    List (Quoted × Doc) → σ → Except Error σ
  | [], draft => .ok draft
  | (name, d) :: rest, draft => do
    let key ← readQuoted name
    match fields.find? (·.name == key) with
    | none =>
      checkFault d.formFault?
      readMembers fields room rest draft
    | some field =>
      if field.isSet draft then
        refuse (.repeatedField key)
      else
        let update ← field.read room d
        readMembers fields room rest (update draft)

/-- Reads the items of an array one after another. Behind the last field nothing may follow, and
    an array that ends before that has to have the fields that are needed. -/
def readItems (record : Record σ α) (room : Nat) (ending : Option Fault) :
    List (Field σ) → List Doc → σ → Except Error σ
  | [], [], draft => do
    checkFault ending
    return draft
  | [], _ :: _, _ => malformed
  | field :: fields, [], draft => do
    checkFault ending
    let items := record.fields.length - (field :: fields).length
    if items < record.needed then
      refuse (.length items record.name record.fields.length)
    else
      return draft
  | field :: fields, d :: ds, draft => do
    let update ← field.read room d
    readItems record room ending fields ds (update draft)

/-- Reads a record. -/
def reader (record : Record σ α) : Reader α
  | room, .object members ending =>
    match room with
    | 0 => malformed
    | room + 1 => do
      let draft ← readMembers record.fields room members record.start
      checkFault ending
      record.finish draft
  | room, .array ds ending =>
    match room with
    | 0 => malformed
    | room + 1 => do
      let draft ← record.readItems room ending record.fields ds record.start
      record.finish draft
  | _, d => .error (d.mismatch (.record record.name))

end Record

end QueryTuning.Json
