import ClassCompiler.Json.Record
import ClassCompiler.Node

/-!
# Nodes as JSON

A node is a record of its kind, its children and its attributes. Children and
attributes may be left out. A kind is written by one of its names, or as an object
whose only field has that name and is null.
-/

namespace ClassCompiler

/-- The kind that a document names, with the given depth left. -/
def Kind.ofDocument? (depth : Nat) : Json.Document → Option Kind
  | .string (some name) => Kind.ofName? name
  | .object [(some name, .null)] => if depth = 0 then none else Kind.ofName? name
  | _ => none

namespace Node

/-- The attributes that a document gives, with the given depth left. -/
def attributesOfDocument? (depth : Nat) (document : Json.Document) :
    Option (List (String × Json.Value)) :=
  match Json.Value.ofDocument? depth document with
  | some (.object fields) => some fields
  | _ => none

/-- The node that a document is, with the given depth left. -/
def ofDocument? : Nat → Json.Document → Option Node
  | 0, _ => none
  | depth + 1, document => do
      let record ← Json.Record.ofDocument? ["kind", "children", "attributes"] document
      let kind ← record.required? "kind" (Kind.ofDocument? depth)
      let children ← record.withDefault? "children" [] fun
        | .array items =>
            match depth with
            | 0 => none
            | inner + 1 => items.mapM (ofDocument? inner)
        | _ => none
      let attributes ← record.withDefault? "attributes" [] (attributesOfDocument? depth)
      return { kind, children, attributes }

/-- The node that a text is. -/
def ofText? (text : String) : Option Node := do
  let document ← Json.Document.ofText? text
  ofDocument? Json.maxDepth document

mutual

/-- The document of a node. All its fields are written. -/
def toDocument : Node → Json.Document
  | ⟨kind, children, attributes⟩ =>
      .object [
        (some "kind", .string (some kind.name)),
        (some "children", .array (toDocuments children)),
        (some "attributes", .object (Json.Value.toDocumentFields attributes))]

/-- The documents of nodes. -/
def toDocuments : List Node → List Json.Document
  | [] => []
  | node :: rest => toDocument node :: toDocuments rest

end

/-- The text of a node. -/
def text (node : Node) : String := node.toDocument.text

end Node

end ClassCompiler
