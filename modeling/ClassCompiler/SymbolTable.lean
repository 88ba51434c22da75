import ClassCompiler.Import
import ClassCompiler.Program

/-!
# Symbol tables

The declarations of one class: its imports, its fields, and for each method its
result type, parameters and locals. Where a name is declared twice the first
declaration counts.
-/

namespace ClassCompiler

/-- A method as its callers and its own body see it. -/
structure MethodSignature where
  name : String
  returnTy : Ty
  params : List Symbol := []
  locals : List Symbol := []
  isStatic : Bool := false
  isPublic : Bool := true
deriving DecidableEq, Repr, Inhabited

namespace MethodSignature

/-- Whether the last parameter collects trailing arguments. -/
def isVararg (signature : MethodSignature) : Bool :=
  match signature.params.getLast? with
  | some param => param.ty.isVararg
  | none => false

/-- The entry point is the static method called `main`. -/
def isMain (signature : MethodSignature) : Bool :=
  signature.name == "main" && signature.isStatic

/-- The signature of a declared method. -/
def ofDecl (method : MethodDecl) : MethodSignature where
  name := method.name
  returnTy := method.returnTy
  params := method.params
  locals := method.locals
  isStatic := method.isStatic
  isPublic := method.isPublic

end MethodSignature

/-- The declarations of a class. -/
structure SymbolTable where
  className : String
  superClass : Option String := none
  imports : List String := []
  fields : List Symbol := []
  methods : List MethodSignature := []
deriving DecidableEq, Repr, Inhabited

namespace SymbolTable

/-- The table a program declares, in declaration order. -/
def ofProgram (program : Program) : SymbolTable where
  className := program.decl.name
  superClass := program.decl.superClass
  imports := program.imports
  fields := program.decl.fields
  methods := program.decl.methods.map MethodSignature.ofDecl

/-- The first field of a name. -/
def field? (table : SymbolTable) (name : String) : Option Symbol :=
  table.fields.find? fun field => field.name == name

/-- The first method of a name. -/
def method? (table : SymbolTable) (name : String) : Option MethodSignature :=
  table.methods.find? fun method => method.name == name

/-- The path of the first import with a simple name. -/
def importPath? (table : SymbolTable) (simple : String) : Option String :=
  (table.imports.find? fun qualified => Import.simpleName qualified == simple).map Import.path

/-- Whether some import has the simple name. -/
def isImported (table : SymbolTable) (simple : String) : Bool :=
  (table.importPath? simple).isSome

/-- Whether a name stands for a class: the class itself, its parent or an import. -/
def isClassName (table : SymbolTable) (name : String) : Bool :=
  name == table.className || table.superClass == some name || table.isImported name

/-- The type of the current object. -/
def classTy (table : SymbolTable) : Ty := Ty.named table.className

end SymbolTable

end ClassCompiler
