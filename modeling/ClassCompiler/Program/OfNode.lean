import ClassCompiler.Decimal.Digits
import ClassCompiler.Node
import ClassCompiler.Program

/-!
# Programs from nodes

The tree of nodes is converted into a typed program, or refused for its first
fault. Faults are found in reading order: the attributes of a node, then its
children from the left, each looked for and then converted. Children beyond those
that a form has are ignored.
-/

namespace ClassCompiler

/-- The results of converting all children, or the first fault among them. -/
def firstFault {α : Type} : List (Except CompileError α) → Except CompileError (List α)
  | [] => .ok []
  | result :: rest => do
      let value ← result
      let values ← firstFault rest
      return value :: values

/-- The result of converting a child that must be there. -/
def Node.part {α : Type} (node : Node) (results : List (Except CompileError α)) (index : Nat) :
    Except CompileError α :=
  match results[index]? with
  | some result => result
  | none => .error (node.missingChild index)

/-! ## Types and symbols -/

/-- The type that a node denotes. An array of arrays denotes an array. -/
def Ty.ofNode : Node → Except CompileError Ty
  | ⟨.type, children, attributes⟩ => do
      let node : Node := ⟨.type, children, attributes⟩
      let name ← node.attr "name"
      return if node.flag "isArray" false then Ty.arrayOf name else Ty.named name
  | ⟨.arrayType, inner :: _, _⟩ => do
      let inner ← Ty.ofNode inner
      return Ty.arrayOf inner.name
  | ⟨.vararg, inner :: _, _⟩ => do
      let inner ← Ty.ofNode inner
      return Ty.varargOf inner.name
  | ⟨.arrayType, [], attributes⟩ => .error (Node.missingChild ⟨.arrayType, [], attributes⟩ 0)
  | ⟨.vararg, [], attributes⟩ => .error (Node.missingChild ⟨.vararg, [], attributes⟩ 0)
  | ⟨kind, _, _⟩ => .error (.malformed kind .notType)

/-- The symbol that a node declares: its name, and the type that its first child
denotes. -/
def Symbol.ofNode (node : Node) : Except CompileError Symbol := do
  let name ← node.attr "name"
  let ty ← node.part (node.children.map Ty.ofNode) 0
  return ⟨name, ty⟩

/-! ## Expressions -/

/-- The literal of an integer node. -/
def intLiteral (node : Node) : Except CompileError Expr := do
  let text ← node.attr "value"
  match Decimal.int32OfText? text with
  | some value => .ok (.int value)
  | none => .error (.malformed node.kind (.invalidInteger text))

/-- The literal of a boolean node. -/
def boolLiteral (node : Node) : Except CompileError Expr := do
  let text ← node.attr "value"
  if text = "true" then .ok (.bool true)
  else if text = "false" then .ok (.bool false)
  else .error (.malformed node.kind (.invalidBoolean text))

/-- An operator applied to two converted children. -/
def binaryExpr (node : Node) (parts : List (Except CompileError Expr)) :
    Except CompileError Expr := do
  let symbol ← node.attr "op"
  match BinaryOp.ofSymbol? symbol with
  | none => .error (.malformed node.kind (.unknownOperator symbol))
  | some op =>
      let left ← node.part parts 0
      let right ← node.part parts 1
      return .binary op left right

/-- Negation of a converted child. -/
def unaryExpr (node : Node) (parts : List (Except CompileError Expr)) :
    Except CompileError Expr := do
  let symbol ← node.attr "op"
  if symbol = "!" then
    let operand ← node.part parts 0
    return .not operand
  else .error (.malformed node.kind (.unknownOperator symbol))

/-- Creation of an array: an element type may stand before the size. -/
def newArrayExpr (node : Node) (parts : List (Except CompileError Expr)) :
    Except CompileError Expr :=
  match node.children with
  | [] => .error (node.missingChild 0)
  | first :: _ =>
      if first.kind.isType then do
        let ty ← Ty.ofNode first
        let size ← node.part parts 1
        return .newArray ty.element size
      else do
        let size ← node.part parts 0
        return .newArray Ty.int size

/-- A call. Its first child is the receiver, unless the call has none. -/
def callExpr (node : Node) (parts : List (Except CompileError Expr)) :
    Except CompileError Expr := do
  let name ← node.attr "name"
  if node.flag "hasReceiver" true then
    match parts with
    | [] => .error (.malformed node.kind .missingReceiver)
    | receiver :: rest =>
        let receiver ← receiver
        let args ← firstFault rest
        return .call receiver name args
  else
    let args ← firstFault parts
    return .selfCall name args

mutual

/-- The expression that a node denotes. -/
def Expr.ofNode : Node → Except CompileError Expr
  | ⟨kind, children, attributes⟩ =>
      let node : Node := ⟨kind, children, attributes⟩
      let parts := Expr.ofNodes children
      match kind with
      | .integerLiteral => intLiteral node
      | .booleanLiteral => boolLiteral node
      | .stringLiteral => do return .string (← node.attr "value")
      | .varRefExpr => do return .var (← node.attr "name")
      | .thisExpr => .ok .self
      | .binaryExpr => binaryExpr node parts
      | .unaryExpr => unaryExpr node parts
      | .parenExpr => do return .paren (← node.part parts 0)
      | .arrayAccessExpr => do
          let array ← node.part parts 0
          let position ← node.part parts 1
          return .index array position
      | .lengthExpr => do return .length (← node.part parts 0)
      | .newArrayExpr => newArrayExpr node parts
      | .arrayInitExpr => do return .arrayInit (← firstFault parts)
      | .newClassExpr => do return .newObject (← node.attr "name")
      | .methodCallExpr => callExpr node parts
      | kind => .error (.malformed kind .notExpression)

/-- The results of converting nodes to expressions. -/
def Expr.ofNodes : List Node → List (Except CompileError Expr)
  | [] => []
  | node :: rest => Expr.ofNode node :: Expr.ofNodes rest

end

/-! ## Statements -/

mutual

/-- The statement that a node denotes. A conditional without negative branch gets
an empty one. -/
def Stmt.ofNode : Node → Except CompileError Stmt
  | ⟨kind, children, attributes⟩ =>
      let node : Node := ⟨kind, children, attributes⟩
      let exprs := Expr.ofNodes children
      let stmts := Stmt.ofNodes children
      match kind with
      | .assignStmt => do
          let target ← node.part exprs 0
          let value ← node.part exprs 1
          return .assign target value
      | .exprStmt => do return .expr (← node.part exprs 0)
      | .returnStmt =>
          match exprs with
          | [] => .ok (.ret none)
          | value :: _ => do return .ret (some (← value))
      | .ifElseStmt => do
          let cond ← node.part exprs 0
          let thenBranch ← node.part stmts 1
          match stmts[2]? with
          | some elseBranch => return .ifElse cond thenBranch (← elseBranch)
          | none => return .ifElse cond thenBranch (.block [])
      | .whileStmt => do
          let cond ← node.part exprs 0
          let body ← node.part stmts 1
          return .whileLoop cond body
      | .scopeStmt => do return .block (← firstFault stmts)
      | kind => .error (.malformed kind .notStatement)

/-- The results of converting nodes to statements. -/
def Stmt.ofNodes : List Node → List (Except CompileError Stmt)
  | [] => []
  | node :: rest => Stmt.ofNode node :: Stmt.ofNodes rest

end

/-! ## Declarations -/

/-- Split off the return type at the start of the children of a method. A method
that names none returns nothing. -/
def returnTyOf (children : List Node) : Except CompileError (Ty × List Node) :=
  match children with
  | [] => .ok (Ty.void, [])
  | first :: rest =>
      if first.kind.isType then do
        let ty ← Ty.ofNode first
        return (ty, rest)
      else .ok (Ty.void, first :: rest)

/-- The method that a node declares. Its children are the return type, the
parameters, the locals and the body, in this order. A method called `main` is
static unless the node says otherwise, and takes `args` if it declares no
parameter. -/
def MethodDecl.ofNode (node : Node) : Except CompileError MethodDecl := do
  let name ← node.attr "name"
  let (returnTy, children) ← returnTyOf node.children
  let (paramNodes, children) := children.span fun child => child.kind = .param
  let (localNodes, bodyNodes) := children.span fun child => child.kind = .varDecl
  let params ← firstFault (paramNodes.map Symbol.ofNode)
  let locals ← firstFault (localNodes.map Symbol.ofNode)
  let body ← firstFault (Stmt.ofNodes bodyNodes)
  return {
    name
    returnTy
    params := if name = "main" ∧ params.isEmpty then [⟨"args", Ty.arrayOf "String"⟩] else params
    locals
    body
    isStatic := node.flag "isStatic" (name = "main")
    isPublic := node.flag "isPublic" true }

/-- What may stand in a class. -/
inductive Member where
  | field (symbol : Symbol)
  | method (decl : MethodDecl)
deriving Repr, Inhabited

namespace Member

/-- The member that a node declares. -/
def ofNode (node : Node) : Except CompileError Member :=
  match node.kind with
  | .varDecl => do return .field (← Symbol.ofNode node)
  | .methodDecl => do return .method (← MethodDecl.ofNode node)
  | kind => .error (.malformed kind .unexpectedInClass)

/-- The symbol of a field. -/
def field? : Member → Option Symbol
  | .field symbol => some symbol
  | .method _ => none

/-- The declaration of a method. -/
def method? : Member → Option MethodDecl
  | .field _ => none
  | .method decl => some decl

end Member

/-- The class that a node declares. -/
def ClassDecl.ofNode (node : Node) : Except CompileError ClassDecl := do
  let name ← node.attr "name"
  let members ← firstFault (node.children.map Member.ofNode)
  return {
    name
    superClass := (node.get? "extendedClass").or (node.get? "superClass")
    fields := members.filterMap Member.field?
    methods := members.filterMap Member.method? }

/-- Join the parts of a listed name by points. -/
def Import.joinParts : List Char → List Char
  | ',' :: ' ' :: rest => '.' :: joinParts rest
  | c :: rest => c :: joinParts rest
  | [] => []

/-- The text between a pair of brackets; a text that is not in brackets stays. -/
def Import.unbracket (text : List Char) : List Char :=
  match text with
  | '[' :: rest => if rest.getLast? = some ']' then rest.dropLast else text
  | _ => text

/-- The dotted name of an import, which may be listed part by part in brackets. -/
def Import.ofText (text : String) : String :=
  String.ofList (Import.joinParts (Import.unbracket text.toList))

/-- Convert what stands at the top level of a program after what has been found
so far: imports, and at most one class. -/
def Program.declarations (imports : List String) (decl : Option ClassDecl) :
    List Node → Except CompileError (List String × Option ClassDecl)
  | [] => .ok (imports, decl)
  | node :: rest =>
      match node.kind, decl with
      | .importStmt, _ => do
          let name ← node.attr "name"
          Program.declarations (imports ++ [Import.ofText name]) decl rest
      | .classDecl, none => do
          let found ← ClassDecl.ofNode node
          Program.declarations imports (some found) rest
      | kind, _ => .error (.malformed kind .unexpectedInProgram)

/-- The program that a node denotes. -/
def Program.ofNode (node : Node) : Except CompileError Program :=
  match node.kind with
  | .program => do
      match ← Program.declarations [] none node.children with
      | (imports, some decl) => return { imports, decl }
      | (_, none) => .error (.malformed .program .noClass)
  | kind => .error (.malformed kind .notProgram)

end ClassCompiler
