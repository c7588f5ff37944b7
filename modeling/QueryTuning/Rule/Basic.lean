import QueryTuning.Error
import QueryTuning.Query.Basic

/-!
# Rules

A `Rule` makes a query of a query and says whether anything changed. What comes of it is an
`Adjusted` query; parts of a query are adjusted in the same way.

* `Adjusted` : a value and whether it was changed.
* `Rule` : a named way to adjust queries, which may also refuse a query.
-/

namespace QueryTuning

/-- What became of something that was to be adjusted. -/
structure Adjusted (α : Type) where
  /-- What it is now. -/
  value : α
  /-- Whether anything was changed. -/
  changed : Bool
deriving DecidableEq, Repr

namespace Adjusted

variable {α : Type}

/-- Left as it was. -/
def same (value : α) : Adjusted α := ⟨value, false⟩

/-- Changed into something else. -/
def into (value : α) : Adjusted α := ⟨value, true⟩

/-- The members of a list, which is changed if one of them is. -/
def ofList (as : List (Adjusted α)) : Adjusted (List α) :=
  ⟨as.map value, as.any changed⟩

@[simp] theorem value_same (a : α) : (same a).value = a := rfl

@[simp] theorem changed_same (a : α) : (same a).changed = false := rfl

@[simp] theorem value_into (a : α) : (into a).value = a := rfl

@[simp] theorem changed_into (a : α) : (into a).changed = true := rfl

@[simp] theorem value_ofList (as : List (Adjusted α)) : (ofList as).value = as.map value := rfl

@[simp] theorem changed_ofList (as : List (Adjusted α)) :
    (ofList as).changed = as.any changed := rfl

end Adjusted

/-- A named way to adjust queries. -/
structure Rule where
  /-- The name by which a trace calls the rule. -/
  name : String
  /-- What the rule is for, in a few words. -/
  description : String := "No description available"
  /-- Adjusts a query, or refuses it. -/
  apply : Query → Except Error (Adjusted Query)

end QueryTuning
