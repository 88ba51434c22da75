import ClassCompiler.Error
import ClassCompiler.Json.Value

/-!
# Nodes

The syntax tree as a front end hands it over: every node has a kind, children in
order and named attributes. Attributes are sorted by name.
-/

namespace ClassCompiler

/-- A node of the syntax tree. -/
structure Node where
  kind : Kind
  children : List Node
  attributes : List (String × Json.Value)
deriving Repr, Inhabited

namespace Node

/-- The text of an attribute. A value that is not a string is rendered as JSON; an
attribute that is null counts as missing. -/
def get? (node : Node) (key : String) : Option String :=
  match node.attributes.lookup key with
  | none => none
  | some .null => none
  | some (.string text) => some text
  | some value => some value.text

/-- An attribute that must be there. -/
def attr (node : Node) (key : String) : Except CompileError String :=
  match node.get? key with
  | some text => .ok text
  | none => .error (.malformed node.kind (.missingAttribute key))

/-- An attribute that holds a truth value: everything but `true` is false. -/
def flag (node : Node) (key : String) (default : Bool) : Bool :=
  match node.get? key with
  | some text => text == "true"
  | none => default

/-- The fault of a node that lacks a child. -/
def missingChild (node : Node) (index : Nat) : CompileError :=
  .malformed node.kind (.missingChild index node.children.length)

end Node

end ClassCompiler
