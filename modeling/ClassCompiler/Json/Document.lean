import ClassCompiler.Json.Token

/-!
# JSON documents

A document is JSON text as it stands: numbers keep their digits, objects keep
repeated keys and their order. Reading goes through the tokens once and holds the
containers that are still open, so that any depth of nesting can be read.
-/

namespace ClassCompiler.Json

/-- A JSON text. A string or key without text has an unpaired surrogate. -/
inductive Document where
  | null
  | bool (value : Bool)
  | number (literal : NumberLiteral)
  | string (text : Option String)
  | array (items : List Document)
  | object (fields : List (Option String × Document))
deriving Repr, Inhabited

/-- A container that is still open: what it holds so far, the latest first, and
in an object the key of the value being read. -/
inductive OpenContainer where
  | array (before : List Document)
  | object (before : List (Option String × Document)) (key : Option String)
deriving Repr, Inhabited

/-- What reading expects next, inside which containers. -/
inductive ReadState where
  /-- A value must follow. -/
  | expectValue (outer : List OpenContainer)
  /-- An array has just begun. -/
  | arrayStart (outer : List OpenContainer)
  /-- An object has just begun. -/
  | objectStart (outer : List OpenContainer)
  /-- A key must follow. -/
  | expectKey (before : List (Option String × Document)) (outer : List OpenContainer)
  /-- The colon after a key must follow. -/
  | expectColon (before : List (Option String × Document)) (key : Option String)
      (outer : List OpenContainer)
  /-- A value is complete. -/
  | complete (value : Document) (outer : List OpenContainer)
deriving Repr, Inhabited

namespace ReadState

/-- Begin a value. -/
def beginValue (outer : List OpenContainer) : Token → Option ReadState
  | .null => some (.complete .null outer)
  | .bool value => some (.complete (.bool value) outer)
  | .number literal => some (.complete (.number literal) outer)
  | .string text => some (.complete (.string text) outer)
  | .openArray => some (.arrayStart outer)
  | .openObject => some (.objectStart outer)
  | _ => none

/-- Go on after a value inside a container. -/
def afterValue (value : Document) (outer : List OpenContainer) :
    OpenContainer → Token → Option ReadState
  | .array before, .comma => some (.expectValue (.array (value :: before) :: outer))
  | .array before, .closeArray => some (.complete (.array (value :: before).reverse) outer)
  | .object before key, .comma => some (.expectKey ((key, value) :: before) outer)
  | .object before key, .closeObject =>
      some (.complete (.object ((key, value) :: before).reverse) outer)
  | _, _ => none

/-- Take one token; `none` if it cannot stand here. -/
def step : ReadState → Token → Option ReadState
  | .expectValue outer, token => beginValue outer token
  | .arrayStart outer, .closeArray => some (.complete (.array []) outer)
  | .arrayStart outer, token => beginValue (.array [] :: outer) token
  | .objectStart outer, .closeObject => some (.complete (.object []) outer)
  | .objectStart outer, .string key => some (.expectColon [] key outer)
  | .expectKey before outer, .string key => some (.expectColon before key outer)
  | .expectColon before key outer, .colon => some (.expectValue (.object before key :: outer))
  | .complete value (container :: outer), token => afterValue value outer container token
  | _, _ => none

/-- The document that has been read, if nothing is open. -/
def result? : ReadState → Option Document
  | .complete value [] => some value
  | _ => none

end ReadState

namespace Document

/-- The document that a list of tokens is. -/
def ofTokens? (tokens : List Token) : Option Document := do
  let state ← tokens.foldlM ReadState.step (.expectValue [])
  state.result?

/-- The document that a text is; `none` if the text is not JSON. -/
def ofText? (text : String) : Option Document := do
  let tokens ← tokens? text
  ofTokens? tokens

/-- The fields of an object. -/
def fields? : Document → Option (List (Option String × Document))
  | .object fields => some fields
  | _ => none

/-- The text of a string. -/
def text? : Document → Option String
  | .string text => text
  | _ => none

/-- The value of `true` and `false`. -/
def bool? : Document → Option Bool
  | .bool value => some value
  | _ => none

end Document

end ClassCompiler.Json
