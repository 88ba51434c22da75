import ClassCompiler.Json.Fields
import ClassCompiler.Json.Number
import ClassCompiler.Json.Printer

/-!
# JSON values

A value is what a document means: numbers are read, and the fields of an object
are sorted by key. Reading a value is limited in depth and refuses strings without
text and numbers out of range.
-/

namespace ClassCompiler.Json

/-- A JSON value. The fields of an object are sorted by key. -/
inductive Value where
  | null
  | bool (value : Bool)
  | number (value : Number)
  | string (text : String)
  | array (items : List Value)
  | object (fields : List (String × Value))
deriving Repr, Inhabited

namespace Value

/-- An object from fields in any order. -/
def ofFields (fields : List (String × Value)) : Value := .object (sortFields fields)

/-- A whole number. -/
def ofInt (value : Int) : Value := .number (.int value)

/-! ## Reading -/

mutual

/-- The value of a document with at most the given number of open containers. -/
def ofDocument? (depth : Nat) : Document → Option Value
  | .null => some .null
  | .bool value => some (.bool value)
  | .number literal => literal.value?.map .number
  | .string text => text.map .string
  | .array items =>
      match depth with
      | 0 => none
      | inner + 1 => (ofDocuments? inner items).map .array
  | .object fields =>
      match depth with
      | 0 => none
      | inner + 1 => (ofDocumentFields? inner fields).map ofFields

/-- The values of documents, in order. -/
def ofDocuments? (depth : Nat) : List Document → Option (List Value)
  | [] => some []
  | document :: rest => do
      let value ← ofDocument? depth document
      let values ← ofDocuments? depth rest
      return value :: values

/-- The values of fields, in order. -/
def ofDocumentFields? (depth : Nat) :
    List (Option String × Document) → Option (List (String × Value))
  | [] => some []
  | (key, document) :: rest => do
      let key ← key
      let value ← ofDocument? depth document
      let values ← ofDocumentFields? depth rest
      return (key, value) :: values

end

/-! ## Writing -/

mutual

/-- The document of a value. -/
def toDocument : Value → Document
  | .null => .null
  | .bool value => .bool value
  | .number value => .number value.literal
  | .string text => .string (some text)
  | .array items => .array (toDocuments items)
  | .object fields => .object (toDocumentFields fields)

/-- The documents of values. -/
def toDocuments : List Value → List Document
  | [] => []
  | value :: rest => toDocument value :: toDocuments rest

/-- The documents of fields. -/
def toDocumentFields : List (String × Value) → List (Option String × Document)
  | [] => []
  | (key, value) :: rest => (some key, toDocument value) :: toDocumentFields rest

end

/-- The text of a value without blanks. -/
def text (value : Value) : String := value.toDocument.text

end Value

end ClassCompiler.Json
