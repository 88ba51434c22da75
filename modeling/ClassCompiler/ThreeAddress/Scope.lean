import ClassCompiler.Error
import ClassCompiler.NameSupply
import ClassCompiler.SymbolTable
import ClassCompiler.ThreeAddress.Value

/-!
# Scopes

While a method is lowered, names are resolved in its scope and temporaries are
added to it. Lowering keeps its state when it fails: numbers once taken are not
given out again, and the scope stays that of the method last begun.
-/

namespace ClassCompiler.ThreeAddress

/-- What a name stands for inside a method. -/
inductive Binding where
  | declared (ty : Ty)
  | field (ty : Ty)
  | className
deriving DecidableEq, Repr, Inhabited

/-- The method being lowered, and the temporaries it has been given so far. -/
structure Scope where
  signature : MethodSignature
  temps : List Symbol := []
deriving DecidableEq, Repr, Inhabited

/-- The scope before any method: an unnamed instance method without variables. -/
def Scope.unnamed : Scope := { signature := { name := "", returnTy := Ty.void } }

/-- The state of lowering. -/
structure LoweringState where
  names : NameSupply := {}
  scope : Scope := Scope.unnamed
deriving DecidableEq, Repr, Inhabited

/-- Lowering may fail, and keeps its state when it does. -/
abbrev Lowering := EStateM CompileError LoweringState

namespace Scope

/-- Resolve a name: locals first, then parameters, then the fields that an
instance method sees, then class names. -/
def resolve? (scope : Scope) (table : SymbolTable) (name : String) : Option Binding :=
  match (scope.signature.locals ++ scope.signature.params).find? (fun s => s.name == name) with
  | some symbol => some (.declared symbol.ty)
  | none =>
      match if scope.signature.isStatic then none else table.field? name with
      | some symbol => some (.field symbol.ty)
      | none => if table.isClassName name then some .className else none

/-- The names a temporary must not have: those of parameters, locals and fields. -/
def takenNames (scope : Scope) (table : SymbolTable) : List String :=
  (scope.signature.params ++ scope.signature.locals ++ table.fields).map Symbol.name

end Scope

namespace Lowering

/-- The scope of the method being lowered. -/
def scope : Lowering Scope := do return (← get).scope

/-- What a name stands for in the current scope. -/
def resolve (table : SymbolTable) (name : String) : Lowering Binding := do
  let scope ← scope
  match scope.resolve? table name with
  | some binding => return binding
  | none => throw (.unresolvedSymbol name scope.signature.name)

/-- A new temporary of a type in the current scope. -/
def freshTemp (table : SymbolTable) (ty : Ty) : Lowering Value := do
  let state ← get
  let (name, names) := state.names.freshTemp (state.scope.takenNames table)
  let temps := state.scope.temps ++ [{ name, ty }]
  set { state with names, scope.temps := temps }
  return .temp name ty

/-- The labels of a conditional. -/
def ifLabels : Lowering (String × String) := do
  let state ← get
  let (labels, names) := state.names.ifLabels
  set { state with names }
  return labels

/-- The labels of a loop. -/
def whileLabels : Lowering (String × String) := do
  let state ← get
  let (labels, names) := state.names.whileLabels
  set { state with names }
  return labels

end Lowering

end ClassCompiler.ThreeAddress
