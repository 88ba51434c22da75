import ClassCompiler.Json.Record
import ClassCompiler.Options

/-!
# Options as JSON

Options are a record in which every field may be left out and no other field may
stand.
-/

namespace ClassCompiler.Options

/-- The names of the options. -/
def fieldNames : List String := ["indent", "root_class", "emit_comments"]

/-- Whether a document has no fields but those of the options. -/
def hasKnownFields : Json.Document → Bool
  | .object fields => fields.all fun (key, _) => key.any fieldNames.contains
  | _ => true

/-- The options that a document gives. They are not checked. -/
def ofDocument? (document : Json.Document) : Option Options := do
  if hasKnownFields document then
    let defaults : Options := {}
    let record ← Json.Record.ofDocument? fieldNames document
    let indent ← record.withDefault? "indent" defaults.indent Json.Document.text?
    let rootClass ← record.withDefault? "root_class" defaults.rootClass Json.Document.text?
    let emitComments ← record.withDefault? "emit_comments" defaults.emitComments Json.Document.bool?
    return { indent, rootClass, emitComments }
  else none

end ClassCompiler.Options
