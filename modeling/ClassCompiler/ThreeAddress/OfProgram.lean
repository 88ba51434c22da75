import ClassCompiler.ThreeAddress.Method
import ClassCompiler.ThreeAddress.OfStmt

/-!
# Three-address code of a program

A class gets a constructor, which calls that of its parent, and then its methods
in declaration order. A method is lowered against its signature in the symbol
table, which need not have been derived from the program.
-/

namespace ClassCompiler.ThreeAddress

/-- The constructor of a class. -/
def constructorOf (table : SymbolTable) : Method :=
  (Method.constructor table.className).extend
    [.call none (.construct (selfValue table)), .ret none]

/-- The body of a method from the code of its statements. A method without result
returns at its end. -/
def completeBody (signature : MethodSignature) (code : Code) : Code :=
  let returns := match code.getLast? with
    | some instr => instr.isReturn
    | none => false
  if (signature.isMain || signature.returnTy.isVoid) && !returns then code ++ [.ret none]
  else code

/-- Enter the scope of a method. -/
def enterMethod (signature : MethodSignature) : Lowering Unit :=
  modify fun state => { state with scope := { signature } }

/-- Take the temporaries of the current scope out of it. -/
def takeTemps : Lowering (List Symbol) := do
  let state ← get
  set { state with scope.temps := [] }
  return state.scope.temps

/-- Lower a method against its signature. -/
def lowerMethod (table : SymbolTable) (decl : MethodDecl) : Lowering Method := do
  match table.method? decl.name with
  | none => throw (.unresolvedSymbol decl.name decl.name)
  | some signature =>
      enterMethod signature
      let code ← lowerStmts table decl.body
      let temps ← takeTemps
      let method : Method := {
        name := signature.name
        returnTy := signature.returnTy
        isPublic := signature.isPublic
        isStatic := signature.isStatic
        params := signature.params
        locals := signature.locals
        temps }
      return method.extend (completeBody signature code)

/-- Lower methods in order. -/
def lowerMethods (table : SymbolTable) : List MethodDecl → Lowering (List Method)
  | [] => return []
  | decl :: rest => do
      let method ← lowerMethod table decl
      let methods ← lowerMethods table rest
      return method :: methods

/-- Lower the class of a program. -/
def lowerProgram (table : SymbolTable) (program : Program) : Lowering ClassUnit := do
  let methods ← lowerMethods table program.decl.methods
  return {
    name := table.className
    superClass := table.superClass
    imports := table.imports
    fields := table.fields
    methods := constructorOf table :: methods }

/-- Lower a program with a new supply of names. -/
def lowerFresh (table : SymbolTable) (program : Program) : Except CompileError ClassUnit :=
  match lowerProgram table program {} with
  | .ok unit _ => .ok unit
  | .error error _ => .error error

end ClassCompiler.ThreeAddress
