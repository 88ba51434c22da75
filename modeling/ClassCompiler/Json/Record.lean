import ClassCompiler.Json.Document

/-!
# Records

A record has a fixed list of field names. It is written as an object, whose other
fields are ignored, or as an array of its field values in the order of the names,
from which values at the end may be missing. A field is given at most once.
-/

namespace ClassCompiler.Json

/-- The fields of a record that are given, by name. -/
abbrev Record := List (String × Document)

namespace Record

/-- The value of a field, if it is given. -/
def get? (record : Record) (name : String) : Option Document := record.lookup name

/-- The fields of a record among those of an object. A key without text is
refused, and so is a field that is given twice. -/
def ofFields? (names : List String) : List (Option String × Document) → Option Record
  | [] => some []
  | (key, value) :: rest => do
      let key ← key
      let record ← ofFields? names rest
      if names.contains key then
        if (record.get? key).isSome then none else some ((key, value) :: record)
      else some record

/-- The fields of a record from values in the order of the names. -/
def ofItems? (names : List String) (items : List Document) : Option Record :=
  if items.length ≤ names.length then some (names.zip items) else none

/-- The fields of a record that a document gives. -/
def ofDocument? (names : List String) : Document → Option Record
  | .object fields => ofFields? names fields
  | .array items => ofItems? names items
  | _ => none

/-- Read a field that must be given. -/
def required? {α : Type} (record : Record) (name : String) (read : Document → Option α) :
    Option α :=
  match record.get? name with
  | some document => read document
  | none => none

/-- Read a field that has a value if it is not given. -/
def withDefault? {α : Type} (record : Record) (name : String) (default : α)
    (read : Document → Option α) : Option α :=
  match record.get? name with
  | some document => read document
  | none => some default

end Record

/-- Read the items of an array, which takes one level of depth. -/
def list? {α : Type} (read : Nat → Document → Option α) (depth : Nat) :
    Document → Option (List α)
  | .array items =>
      match depth with
      | 0 => none
      | inner + 1 => items.mapM (read inner)
  | _ => none

/-- Read a record, which takes one level of depth. -/
def record? (names : List String) (depth : Nat) (document : Document) : Option (Record × Nat) :=
  match depth with
  | 0 => none
  | inner + 1 => (Record.ofDocument? names document).map (·, inner)

/-- The number of containers that may be open at a time. -/
def maxDepth : Nat := 127

end ClassCompiler.Json
