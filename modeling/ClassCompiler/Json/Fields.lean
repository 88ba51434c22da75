/-!
# Fields

A collection of named values, sorted by name, each name once. Adding a name that
is already there replaces its value.
-/

namespace ClassCompiler.Json

/-- Add a named value to fields sorted by name. -/
def insertField {α : Type} (name : String) (value : α) :
    List (String × α) → List (String × α)
  | [] => [(name, value)]
  | (other, held) :: rest =>
      if name < other then (name, value) :: (other, held) :: rest
      else if name = other then (name, value) :: rest
      else (other, held) :: insertField name value rest

/-- Sort named values by name; of a repeated name the last value stays. -/
def sortFields {α : Type} (fields : List (String × α)) : List (String × α) :=
  fields.foldl (fun sorted (name, value) => insertField name value sorted) []

end ClassCompiler.Json
