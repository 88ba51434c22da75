import ClassCompiler.Json.Printer
import ClassCompiler.Json.Record
import ClassCompiler.SymbolTable

/-!
# Symbol tables as JSON

A symbol table and everything in it are records. What has a natural default may be
left out: flags, lists and the superclass, which may also be null. A type that
collects arguments is an array type whether or not it says so.
-/

namespace ClassCompiler

open Json

/-! ## Reading -/

/-- The type that a document is, with the given depth left. -/
def Ty.ofDocument? (depth : Nat) (document : Document) : Option Ty := do
  let (record, _) ← record? ["name", "isArray", "isVararg"] depth document
  let name ← record.required? "name" Document.text?
  let isArray ← record.withDefault? "isArray" false Document.bool?
  let isVararg ← record.withDefault? "isVararg" false Document.bool?
  return if isVararg then Ty.varargOf name else if isArray then Ty.arrayOf name else Ty.named name

/-- The symbol that a document is, with the given depth left. -/
def Symbol.ofDocument? (depth : Nat) (document : Document) : Option Symbol := do
  let (record, inner) ← record? ["name", "type"] depth document
  let name ← record.required? "name" Document.text?
  let ty ← record.required? "type" (Ty.ofDocument? inner)
  return { name, ty }

/-- The method that a document is, with the given depth left. -/
def MethodSignature.ofDocument? (depth : Nat) (document : Document) :
    Option MethodSignature := do
  let (record, inner) ←
    record? ["name", "returnType", "params", "locals", "isStatic", "isPublic"] depth document
  let name ← record.required? "name" Document.text?
  let returnTy ← record.required? "returnType" (Ty.ofDocument? inner)
  let params ← record.withDefault? "params" [] (list? Symbol.ofDocument? inner)
  let locals ← record.withDefault? "locals" [] (list? Symbol.ofDocument? inner)
  let isStatic ← record.withDefault? "isStatic" false Document.bool?
  let isPublic ← record.withDefault? "isPublic" true Document.bool?
  return { name, returnTy, params, locals, isStatic, isPublic }

namespace SymbolTable

/-- A name that may be null. -/
def nameOrNull? : Document → Option (Option String)
  | .null => some none
  | .string (some name) => some (some name)
  | _ => none

/-- The table that a document is, with the given depth left. -/
def ofDocument? (depth : Nat) (document : Document) : Option SymbolTable := do
  let (record, inner) ←
    record? ["className", "superClass", "imports", "fields", "methods"] depth document
  let className ← record.required? "className" Document.text?
  let superClass ← record.withDefault? "superClass" none nameOrNull?
  let imports ← record.withDefault? "imports" [] (list? (fun _ => Document.text?) inner)
  let fields ← record.withDefault? "fields" [] (list? Symbol.ofDocument? inner)
  let methods ← record.withDefault? "methods" [] (list? MethodSignature.ofDocument? inner)
  return { className, superClass, imports, fields, methods }

/-- The table that a text is. -/
def ofText? (text : String) : Option SymbolTable := do
  let document ← Document.ofText? text
  ofDocument? maxDepth document

end SymbolTable

/-! ## Writing -/

/-- The document of a type. -/
def Ty.toDocument (ty : Ty) : Document :=
  .object [
    (some "name", .string (some ty.name)),
    (some "isArray", .bool ty.isArray),
    (some "isVararg", .bool ty.isVararg)]

/-- The document of a symbol. -/
def Symbol.toDocument (symbol : Symbol) : Document :=
  .object [
    (some "name", .string (some symbol.name)),
    (some "type", symbol.ty.toDocument)]

/-- The document of a method. -/
def MethodSignature.toDocument (signature : MethodSignature) : Document :=
  .object [
    (some "name", .string (some signature.name)),
    (some "returnType", signature.returnTy.toDocument),
    (some "params", .array (signature.params.map Symbol.toDocument)),
    (some "locals", .array (signature.locals.map Symbol.toDocument)),
    (some "isStatic", .bool signature.isStatic),
    (some "isPublic", .bool signature.isPublic)]

namespace SymbolTable

/-- The document of a table. All its fields are written. -/
def toDocument (table : SymbolTable) : Document :=
  .object [
    (some "className", .string (some table.className)),
    (some "superClass", match table.superClass with
      | some name => .string (some name)
      | none => .null),
    (some "imports", .array (table.imports.map fun name => .string (some name))),
    (some "fields", .array (table.fields.map Symbol.toDocument)),
    (some "methods", .array (table.methods.map MethodSignature.toDocument))]

/-- The text of a table. -/
def text (table : SymbolTable) : String := table.toDocument.text

end SymbolTable

end ClassCompiler
