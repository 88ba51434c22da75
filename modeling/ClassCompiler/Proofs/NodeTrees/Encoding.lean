import ClassCompiler.Proofs.Effects
import ClassCompiler.Program.OfNode
import Mathlib.Data.List.Infix

/-!
# Programs as node trees

Every program can be written as a tree of nodes: names, literals and operators are
attributes, and everything else is a child in a fixed place. Conversion of that tree
always succeeds. It gives the program back in its normal form, in which imports are
dotted, `main` takes a parameter and new arrays name the type of their elements; and
the program itself exactly if it is in that form.
-/

namespace ClassCompiler

open Effects

/-! ## Writing programs as nodes -/

/-- A node whose attributes are texts. -/
def Node.tagged (kind : Kind) (attributes : List (String × String)) (children : List Node) :
    Node where
  kind := kind
  children := children
  attributes := attributes.map fun (key, text) => (key, .string text)

/-- The node of a type. -/
def Ty.toNode (ty : Ty) : Node :=
  let name := Node.tagged .type [("name", ty.name)] []
  match ty.shape with
  | .single => name
  | .array => .tagged .arrayType [] [name]
  | .vararg => .tagged .vararg [] [name]

/-- The node of a declared name: a parameter, or a variable of a class or a method. -/
def Symbol.toNode (kind : Kind) (symbol : Symbol) : Node :=
  .tagged kind [("name", symbol.name)] [symbol.ty.toNode]

section

-- In the brief form a new array of integers does not name the type of its elements.
variable (brief : Bool)

mutual

/-- The node of an expression. -/
def Expr.toNode : Expr → Node
  | .int value => .tagged .integerLiteral [("value", toString value.toInt)] []
  | .bool value => .tagged .booleanLiteral [("value", toString value)] []
  | .string value => .tagged .stringLiteral [("value", value)] []
  | .self => .tagged .thisExpr [] []
  | .var name => .tagged .varRefExpr [("name", name)] []
  | .binary op left right =>
      .tagged .binaryExpr [("op", op.symbol)] [left.toNode, right.toNode]
  | .not operand => .tagged .unaryExpr [("op", "!")] [operand.toNode]
  | .paren inner => .tagged .parenExpr [] [inner.toNode]
  | .index array position => .tagged .arrayAccessExpr [] [array.toNode, position.toNode]
  | .length array => .tagged .lengthExpr [] [array.toNode]
  | .newArray elem size =>
      .tagged .newArrayExpr []
        (if brief ∧ elem = Ty.int then [size.toNode] else [elem.toNode, size.toNode])
  | .arrayInit elements => .tagged .arrayInitExpr [] (Expr.toNodes elements)
  | .newObject className => .tagged .newClassExpr [("name", className)] []
  | .selfCall name args =>
      ⟨.methodCallExpr, Expr.toNodes args, [("hasReceiver", .bool false), ("name", .string name)]⟩
  | .call receiver name args =>
      .tagged .methodCallExpr [("name", name)] (receiver.toNode :: Expr.toNodes args)

/-- The nodes of expressions. -/
def Expr.toNodes : List Expr → List Node
  | [] => []
  | expr :: rest => expr.toNode :: Expr.toNodes rest

end

mutual

/-- The node of a statement. -/
def Stmt.toNode : Stmt → Node
  | .assign target value => .tagged .assignStmt [] [target.toNode brief, value.toNode brief]
  | .expr value => .tagged .exprStmt [] [value.toNode brief]
  | .ret none => .tagged .returnStmt [] []
  | .ret (some value) => .tagged .returnStmt [] [value.toNode brief]
  | .ifElse cond thenBranch elseBranch =>
      .tagged .ifElseStmt [] [cond.toNode brief, thenBranch.toNode, elseBranch.toNode]
  | .whileLoop cond body => .tagged .whileStmt [] [cond.toNode brief, body.toNode]
  | .block body => .tagged .scopeStmt [] (Stmt.toNodes body)

/-- The nodes of statements. -/
def Stmt.toNodes : List Stmt → List Node
  | [] => []
  | stmt :: rest => stmt.toNode :: Stmt.toNodes rest

end

/-- The node of a method: its result type, its parameters, its locals and its body. -/
def MethodDecl.toNode (method : MethodDecl) : Node :=
  .tagged .methodDecl
    [("isPublic", toString method.isPublic), ("isStatic", toString method.isStatic),
      ("name", method.name)]
    (method.returnTy.toNode :: (method.params.map (Symbol.toNode .param) ++
      (method.locals.map (Symbol.toNode .varDecl) ++ Stmt.toNodes brief method.body)))

/-- The node of a class: its fields and its methods. -/
def ClassDecl.toNode (decl : ClassDecl) : Node :=
  .tagged .classDecl
    ((decl.superClass.map fun parent => ("extendedClass", parent)).toList ++ [("name", decl.name)])
    (decl.fields.map (Symbol.toNode .varDecl) ++ decl.methods.map (MethodDecl.toNode brief))

/-- The node of a program: its imports and its class. -/
def Program.toNode (program : Program) : Node :=
  .tagged .program []
    (program.imports.map (fun name => .tagged .importStmt [("name", name)] []) ++
      [program.decl.toNode brief])

end

/-! ## Normal form -/

mutual

/-- An expression whose new arrays name the type of their elements. -/
def Expr.normal : Expr → Expr
  | .binary op left right => .binary op left.normal right.normal
  | .not operand => .not operand.normal
  | .paren inner => .paren inner.normal
  | .index array position => .index array.normal position.normal
  | .length array => .length array.normal
  | .newArray elem size => .newArray elem.element size.normal
  | .arrayInit elements => .arrayInit (Expr.normals elements)
  | .selfCall name args => .selfCall name (Expr.normals args)
  | .call receiver name args => .call receiver.normal name (Expr.normals args)
  | expr => expr

/-- Expressions in normal form. -/
def Expr.normals : List Expr → List Expr
  | [] => []
  | expr :: rest => expr.normal :: Expr.normals rest

end

mutual

/-- A statement whose expressions are in normal form. -/
def Stmt.normal : Stmt → Stmt
  | .assign target value => .assign target.normal value.normal
  | .expr value => .expr value.normal
  | .ret value => .ret (value.map Expr.normal)
  | .ifElse cond thenBranch elseBranch =>
      .ifElse cond.normal thenBranch.normal elseBranch.normal
  | .whileLoop cond body => .whileLoop cond.normal body.normal
  | .block body => .block (Stmt.normals body)

/-- Statements in normal form. -/
def Stmt.normals : List Stmt → List Stmt
  | [] => []
  | stmt :: rest => stmt.normal :: Stmt.normals rest

end

/-- A method whose body is in normal form and which takes `args` if it is called `main`
and declares no parameter. -/
def MethodDecl.normal (method : MethodDecl) : MethodDecl :=
  { method with
    params :=
      if method.name = "main" ∧ method.params.isEmpty then [⟨"args", Ty.arrayOf "String"⟩]
      else method.params
    body := Stmt.normals method.body }

/-- A program whose imports are dotted and whose methods are in normal form. -/
def Program.normal (program : Program) : Program where
  imports := program.imports.map Import.ofText
  decl := { program.decl with methods := program.decl.methods.map MethodDecl.normal }

/-! ## Conversion gives the normal form -/

section Attributes

variable {kind : Kind} {attributes : List (String × String)} {children : List Node}

theorem get?_tagged (key : String) :
    (Node.tagged kind attributes children).get? key = attributes.lookup key := by
  induction attributes with
  | nil => rfl
  | cons entry rest ih =>
      obtain ⟨name, text⟩ := entry
      simp only [Node.get?, Node.tagged, List.map_cons, List.lookup_cons] at ih ⊢
      by_cases same : key == name <;> simp [same, ih]

theorem attr_tagged {key text : String} (found : attributes.lookup key = some text) :
    (Node.tagged kind attributes children).attr key = .ok text := by
  rw [Node.attr, get?_tagged, found]

theorem flag_tagged {key : String} {value : Bool} (default : Bool)
    (found : attributes.lookup key = some (toString value)) :
    (Node.tagged kind attributes children).flag key default = value := by
  rw [Node.flag, get?_tagged, found]
  cases value <;> rfl

end Attributes

theorem ofNode_toNode_ty (ty : Ty) : Ty.ofNode ty.toNode = .ok ty := by
  obtain ⟨name, shape⟩ := ty
  cases shape <;> rfl

theorem isType_toNode (ty : Ty) : ty.toNode.kind.isType = true := by
  obtain ⟨name, shape⟩ := ty
  cases shape <;> rfl

theorem ofNode_toNode_symbol (kind : Kind) (symbol : Symbol) :
    Symbol.ofNode (symbol.toNode kind) = .ok symbol := by
  have part : (symbol.toNode kind).part ((symbol.toNode kind).children.map Ty.ofNode) 0 =
      .ok symbol.ty := ofNode_toNode_ty symbol.ty
  rw [Symbol.ofNode, Symbol.toNode, attr_tagged rfl, ← Symbol.toNode, part]
  rfl

/-! ### Numbers -/

theorem natOfText?_toDigits (number : Nat) :
    Decimal.natOfText? (Nat.toDigits 10 number) = some number := by
  have allDigits : (Nat.toDigits 10 number).all Char.isDigit = true := by
    rw [List.all_eq_true]
    intro char member
    exact Nat.isDigit_of_mem_toDigits (by decide) (by decide) member
  have notEmpty : (Nat.toDigits 10 number).isEmpty = false := by
    simp [Nat.toDigits_ne_nil]
  rw [Decimal.natOfText?, allDigits, notEmpty]
  exact congrArg some Nat.ofDigitChars_ten_toDigits

theorem intOfText?_toString (number : Int) :
    Decimal.intOfText? (toString number).toList = some number := by
  have noSign {number : Nat} {sign : Char} (isSign : sign.isDigit = false) (digits : List Char) :
      Nat.toDigits 10 number ≠ sign :: digits := by
    intro same
    have isDigit : sign.isDigit = true :=
      Nat.isDigit_of_mem_toDigits (by decide) (by decide) (same ▸ List.mem_cons_self)
    rw [isSign] at isDigit
    cases isDigit
  cases number with
  | ofNat number =>
      have textEq : (toString (Int.ofNat number)).toList = Nat.toDigits 10 number :=
        Nat.toList_repr
      rw [textEq, Decimal.intOfText?, natOfText?_toDigits]
      · rfl
      · exact noSign (by decide)
      · exact noSign (by decide)
  | negSucc number =>
      have textEq : (toString (Int.negSucc number)).toList =
          '-' :: Nat.toDigits 10 (number + 1) := by
        change ("-" ++ toString (number + 1)).toList = _
        rw [String.toList_append, Nat.toString_eq_repr, Nat.toList_repr]
        rfl
      rw [textEq, Decimal.intOfText?, natOfText?_toDigits]
      rfl

theorem int32OfText?_toString (value : Int32) :
    Decimal.int32OfText? (toString value.toInt) = some value := by
  have inRange : Int32.minValue.toInt ≤ value.toInt ∧ value.toInt ≤ Int32.maxValue.toInt :=
    ⟨value.minValue_le_toInt, value.toInt_le⟩
  rw [Decimal.int32OfText?, intOfText?_toString]
  simp only [if_pos inRange, Int32.ofInt_toInt]

/-! ### Expressions -/

theorem intLiteral_tagged (value : Int32) :
    intLiteral (.tagged .integerLiteral [("value", toString value.toInt)] []) =
      .ok (.int value) := by
  rw [intLiteral, attr_tagged rfl]
  simp only [bind, Except.bind, int32OfText?_toString]

theorem binaryExpr_tagged (op : BinaryOp) (children : List Node) (left right : Expr) :
    binaryExpr (.tagged .binaryExpr [("op", op.symbol)] children) [.ok left, .ok right] =
      .ok (.binary op left right) := by
  rw [binaryExpr, attr_tagged rfl]
  simp only [bind, Except.bind, BinaryOp.ofSymbol?_symbol]
  rfl

theorem newArrayExpr_typed (elem : Ty) (child : Node) (first : Except CompileError Expr)
    (size : Expr) :
    newArrayExpr (.tagged .newArrayExpr [] [elem.toNode, child]) [first, .ok size] =
      .ok (.newArray elem.element size) := by
  simp only [newArrayExpr, Node.tagged, isType_toNode, if_true, ofNode_toNode_ty]
  rfl

theorem isType_toNode_expr (brief : Bool) (expr : Expr) :
    (expr.toNode brief).kind.isType = false := by
  cases expr <;> simp only [Expr.toNode] <;> rfl

theorem callExpr_self (name : String) (children : List Node)
    {parts : List (Except CompileError Expr)} {args : List Expr}
    (partsEq : firstFault parts = .ok args) :
    callExpr ⟨.methodCallExpr, children, [("hasReceiver", .bool false), ("name", .string name)]⟩
      parts = .ok (.selfCall name args) := by
  have flag : Node.flag ⟨.methodCallExpr, children,
      [("hasReceiver", .bool false), ("name", .string name)]⟩ "hasReceiver" true = false := rfl
  rw [callExpr, flag]
  simp only [partsEq]
  rfl

theorem callExpr_receiver (name : String) (children : List Node) (receiver : Expr)
    {parts : List (Except CompileError Expr)} {args : List Expr}
    (partsEq : firstFault parts = .ok args) :
    callExpr (.tagged .methodCallExpr [("name", name)] children) (.ok receiver :: parts) =
      .ok (.call receiver name args) := by
  have flag : (Node.tagged .methodCallExpr [("name", name)] children).flag "hasReceiver" true =
      true := rfl
  rw [callExpr, flag, attr_tagged rfl]
  simp only [partsEq]
  rfl

mutual

/-- Conversion of the node of an expression gives its normal form. -/
theorem ofNode_toNode_expr (brief : Bool) :
    (expr : Expr) → Expr.ofNode (expr.toNode brief) = .ok expr.normal
  | .int value => by
      rw [Expr.toNode, Node.tagged, Expr.ofNode]
      exact intLiteral_tagged value
  | .bool value => by cases value <;> rfl
  | .string value => rfl
  | .self => rfl
  | .var name => rfl
  | .binary op left right => by
      rw [Expr.toNode, Node.tagged, Expr.ofNode]
      simp only [Expr.ofNodes, ofNode_toNode_expr brief left, ofNode_toNode_expr brief right]
      exact binaryExpr_tagged op _ _ _
  | .not operand => by
      rw [Expr.toNode, Node.tagged, Expr.ofNode]
      simp only [Expr.ofNodes, ofNode_toNode_expr brief operand]
      rfl
  | .paren inner => by
      rw [Expr.toNode, Node.tagged, Expr.ofNode]
      simp only [Expr.ofNodes, ofNode_toNode_expr brief inner]
      rfl
  | .index array position => by
      rw [Expr.toNode, Node.tagged, Expr.ofNode]
      simp only [Expr.ofNodes, ofNode_toNode_expr brief array, ofNode_toNode_expr brief position]
      rfl
  | .length array => by
      rw [Expr.toNode, Node.tagged, Expr.ofNode]
      simp only [Expr.ofNodes, ofNode_toNode_expr brief array]
      rfl
  | .newArray elem size => by
      have sizeEq := ofNode_toNode_expr brief size
      rw [Expr.toNode]
      split
      · next isBrief =>
          rw [Node.tagged, Expr.ofNode, Expr.normal, isBrief.2]
          simp only [Expr.ofNodes, sizeEq, newArrayExpr, isType_toNode_expr]
          rfl
      · rw [Node.tagged, Expr.ofNode]
        simp only [Expr.ofNodes, sizeEq]
        exact newArrayExpr_typed elem _ _ _
  | .arrayInit elements => by
      rw [Expr.toNode, Node.tagged, Expr.ofNode]
      simp only [firstFault_ofNodes_toNodes brief elements]
      rfl
  | .newObject className => rfl
  | .selfCall name args => by
      rw [Expr.toNode, Expr.ofNode]
      exact callExpr_self name _ (firstFault_ofNodes_toNodes brief args)
  | .call receiver name args => by
      rw [Expr.toNode, Node.tagged, Expr.ofNode]
      simp only [Expr.ofNodes, ofNode_toNode_expr brief receiver]
      exact callExpr_receiver name _ _ (firstFault_ofNodes_toNodes brief args)

theorem firstFault_ofNodes_toNodes (brief : Bool) : (exprs : List Expr) →
    firstFault (Expr.ofNodes (Expr.toNodes brief exprs)) = .ok (Expr.normals exprs)
  | [] => rfl
  | expr :: rest => by
      rw [Expr.toNodes, Expr.ofNodes, firstFault, ofNode_toNode_expr brief expr,
        firstFault_ofNodes_toNodes brief rest]
      rfl

end

/-! ### Statements -/

mutual

/-- Conversion of the node of a statement gives its normal form. -/
theorem ofNode_toNode_stmt (brief : Bool) :
    (stmt : Stmt) → Stmt.ofNode (stmt.toNode brief) = .ok stmt.normal
  | .assign target value => by
      rw [Stmt.toNode, Node.tagged, Stmt.ofNode]
      simp only [Expr.ofNodes, ofNode_toNode_expr]
      rfl
  | .expr value => by
      rw [Stmt.toNode, Node.tagged, Stmt.ofNode]
      simp only [Expr.ofNodes, ofNode_toNode_expr]
      rfl
  | .ret none => rfl
  | .ret (some value) => by
      rw [Stmt.toNode, Node.tagged, Stmt.ofNode]
      simp only [Expr.ofNodes, ofNode_toNode_expr]
      rfl
  | .ifElse cond thenBranch elseBranch => by
      rw [Stmt.toNode, Node.tagged, Stmt.ofNode]
      simp only [Expr.ofNodes, ofNode_toNode_expr, Stmt.ofNodes,
        ofNode_toNode_stmt brief thenBranch, ofNode_toNode_stmt brief elseBranch]
      rfl
  | .whileLoop cond body => by
      rw [Stmt.toNode, Node.tagged, Stmt.ofNode]
      simp only [Expr.ofNodes, ofNode_toNode_expr, Stmt.ofNodes, ofNode_toNode_stmt brief body]
      rfl
  | .block body => by
      rw [Stmt.toNode, Node.tagged, Stmt.ofNode]
      simp only [firstFault_ofNodes_toNodes_stmt brief body]
      rfl

theorem firstFault_ofNodes_toNodes_stmt (brief : Bool) : (stmts : List Stmt) →
    firstFault (Stmt.ofNodes (Stmt.toNodes brief stmts)) = .ok (Stmt.normals stmts)
  | [] => rfl
  | stmt :: rest => by
      rw [Stmt.toNodes, Stmt.ofNodes, firstFault, ofNode_toNode_stmt brief stmt,
        firstFault_ofNodes_toNodes_stmt brief rest]
      rfl

end

/-! ### Declarations -/

theorem firstFault_map {α β γ : Type} {convert : β → Except CompileError α} {write : γ → β}
    {normal : γ → α} (each : ∀ value, convert (write value) = .ok (normal value))
    (values : List γ) :
    firstFault ((values.map write).map convert) = .ok (values.map normal) := by
  induction values with
  | nil => rfl
  | cons value rest ih =>
      simp only [List.map_cons, firstFault, each, ih]
      rfl

theorem firstFault_append {α : Type} {first second : List (Except CompileError α)}
    {values others : List α} (firstEq : firstFault first = .ok values)
    (secondEq : firstFault second = .ok others) :
    firstFault (first ++ second) = .ok (values ++ others) := by
  induction first generalizing values with
  | nil =>
      cases firstEq
      exact secondEq
  | cons result rest ih =>
      rw [firstFault, except_bind_eq_ok_iff] at firstEq
      obtain ⟨value, rfl, restEq⟩ := firstEq
      obtain ⟨values, valuesEq, same⟩ := except_bind_eq_ok_iff.mp restEq
      cases same
      rw [List.cons_append, firstFault, ih valuesEq]
      rfl

theorem firstFault_symbols (kind : Kind) (symbols : List Symbol) :
    firstFault ((symbols.map (Symbol.toNode kind)).map Symbol.ofNode) = .ok symbols := by
  have converted := firstFault_map (ofNode_toNode_symbol kind) symbols
  rwa [List.map_id'] at converted

/-- Declarations of a kind stand before the first node of another kind. -/
theorem span_symbols (kind : Kind) (symbols : List Symbol) {rest : List Node}
    (others : ∀ node ∈ rest, node.kind ≠ kind) :
    (symbols.map (Symbol.toNode kind) ++ rest).span (fun child => child.kind = kind) =
      (symbols.map (Symbol.toNode kind), rest) := by
  have ofKind : ∀ node ∈ symbols.map (Symbol.toNode kind), decide (node.kind = kind) = true := by
    intro node member
    obtain ⟨symbol, _, rfl⟩ := List.mem_map.mp member
    exact decide_eq_true rfl
  have stops : rest.takeWhile (fun child => child.kind = kind) = [] ∧
      rest.dropWhile (fun child => child.kind = kind) = rest := by
    cases rest with
    | nil => exact ⟨rfl, rfl⟩
    | cons node rest => simp [others node List.mem_cons_self]
  rw [List.span_eq_takeWhile_dropWhile, List.takeWhile_append_of_pos ofKind,
    List.dropWhile_append_of_pos ofKind, stops.1, stops.2, List.append_nil]

theorem kind_toNode_stmt (brief : Bool) (stmt : Stmt) :
    (stmt.toNode brief).kind ≠ .param ∧ (stmt.toNode brief).kind ≠ .varDecl := by
  cases stmt with
  | ret value => cases value <;> simp [Stmt.toNode, Node.tagged]
  | _ => simp [Stmt.toNode, Node.tagged]

theorem kind_of_mem_toNodes (brief : Bool) {stmts : List Stmt} {node : Node}
    (member : node ∈ Stmt.toNodes brief stmts) : node.kind ≠ .param ∧ node.kind ≠ .varDecl := by
  induction stmts with
  | nil => cases member
  | cons stmt rest ih =>
      rw [Stmt.toNodes, List.mem_cons] at member
      rcases member with rfl | inRest
      · exact kind_toNode_stmt brief stmt
      · exact ih inRest

theorem ofNode_toNode_method (brief : Bool) (method : MethodDecl) :
    MethodDecl.ofNode (method.toNode brief) = .ok method.normal := by
  have bodyKinds : ∀ node ∈ Stmt.toNodes brief method.body, node.kind ≠ .varDecl :=
    fun node member => (kind_of_mem_toNodes brief member).2
  have restKinds : ∀ node ∈ method.locals.map (Symbol.toNode .varDecl) ++
      Stmt.toNodes brief method.body, node.kind ≠ .param := by
    intro node member
    rcases List.mem_append.mp member with isLocal | inBody
    · obtain ⟨symbol, _, rfl⟩ := List.mem_map.mp isLocal
      simp [Symbol.toNode, Node.tagged]
    · exact (kind_of_mem_toNodes brief inBody).1
  have returnEq : returnTyOf (method.toNode brief).children =
      .ok (method.returnTy, method.params.map (Symbol.toNode .param) ++
        (method.locals.map (Symbol.toNode .varDecl) ++ Stmt.toNodes brief method.body)) := by
    simp only [MethodDecl.toNode, Node.tagged, returnTyOf, isType_toNode, if_true, ofNode_toNode_ty]
    rfl
  have nameEq : (method.toNode brief).attr "name" = .ok method.name := attr_tagged rfl
  have isStaticEq (default : Bool) : (method.toNode brief).flag "isStatic" default =
      method.isStatic := flag_tagged default rfl
  have isPublicEq : (method.toNode brief).flag "isPublic" true = method.isPublic :=
    flag_tagged true rfl
  simp only [MethodDecl.ofNode, nameEq, returnEq, isStaticEq, isPublicEq, bind, Except.bind,
    span_symbols .param _ restKinds, span_symbols .varDecl _ bodyKinds, firstFault_symbols,
    firstFault_ofNodes_toNodes_stmt]
  rfl

theorem ofNode_toNode_class (brief : Bool) (decl : ClassDecl) :
    ClassDecl.ofNode (decl.toNode brief) =
      .ok { decl with methods := decl.methods.map MethodDecl.normal } := by
  have fieldsEq : firstFault ((decl.fields.map (Symbol.toNode .varDecl)).map Member.ofNode) =
      .ok (decl.fields.map Member.field) := by
    apply firstFault_map
    intro symbol
    change (do return Member.field (← Symbol.ofNode (symbol.toNode .varDecl))) = _
    rw [ofNode_toNode_symbol]
    rfl
  have methodsEq : firstFault ((decl.methods.map (MethodDecl.toNode brief)).map Member.ofNode) =
      .ok (decl.methods.map fun method => .method method.normal) := by
    apply firstFault_map
    intro method
    change (do return Member.method (← MethodDecl.ofNode (method.toNode brief))) = _
    rw [ofNode_toNode_method]
    rfl
  have membersEq : firstFault ((decl.toNode brief).children.map Member.ofNode) =
      .ok (decl.fields.map Member.field ++
        decl.methods.map fun method => .method method.normal) := by
    rw [ClassDecl.toNode, Node.tagged, List.map_append]
    exact firstFault_append fieldsEq methodsEq
  have nameEq : (decl.toNode brief).attr "name" = .ok decl.name := by
    apply attr_tagged
    cases decl.superClass <;> rfl
  have superEq : ((decl.toNode brief).get? "extendedClass").or
      ((decl.toNode brief).get? "superClass") = decl.superClass := by
    rw [ClassDecl.toNode, get?_tagged, get?_tagged]
    cases decl.superClass <;> rfl
  have fieldsFound : (decl.fields.map Member.field ++
      decl.methods.map fun method => Member.method method.normal).filterMap Member.field? =
        decl.fields := by
    simp [Function.comp_def, Member.field?]
  have methodsFound : (decl.fields.map Member.field ++
      decl.methods.map fun method => Member.method method.normal).filterMap Member.method? =
        decl.methods.map MethodDecl.normal := by
    simp [Function.comp_def, Member.method?]
  simp only [ClassDecl.ofNode, nameEq, membersEq, superEq, bind, Except.bind, fieldsFound,
    methodsFound]
  rfl

theorem declarations_imports (imports names : List String) (rest : List Node) :
    Program.declarations imports none
        (names.map (fun name => .tagged .importStmt [("name", name)] []) ++ rest) =
      Program.declarations (imports ++ names.map Import.ofText) none rest := by
  induction names generalizing imports with
  | nil => rw [List.map_nil, List.map_nil, List.append_nil, List.nil_append]
  | cons name names ih =>
      have step := ih (imports ++ [Import.ofText name])
      rw [List.append_assoc, List.singleton_append] at step
      rw [List.map_cons, List.map_cons, List.cons_append, ← step]
      rfl

/-- Conversion of the node of a program gives its normal form. -/
theorem ofNode_toNode_program (brief : Bool) (program : Program) :
    Program.ofNode (program.toNode brief) = .ok program.normal := by
  have kindEq : (program.toNode brief).kind = .program := rfl
  have classKind : (program.decl.toNode brief).kind = .classDecl := rfl
  have childrenEq : Program.declarations [] none (program.toNode brief).children =
      .ok (program.imports.map Import.ofText, some program.normal.decl) := by
    rw [Program.toNode, Node.tagged, declarations_imports, List.nil_append]
    simp only [Program.declarations, classKind, ofNode_toNode_class]
    rfl
  simp only [Program.ofNode, kindEq, childrenEq, bind, Except.bind]
  rfl

/-! ## Programs in normal form -/

mutual

/-- The element types of the arrays that an expression creates. -/
def Expr.newElements : Expr → List Ty
  | .binary _ left right => left.newElements ++ right.newElements
  | .not operand => operand.newElements
  | .paren inner => inner.newElements
  | .index array position => array.newElements ++ position.newElements
  | .length array => array.newElements
  | .newArray elem size => elem :: size.newElements
  | .arrayInit elements => Expr.newElementsIn elements
  | .selfCall _ args => Expr.newElementsIn args
  | .call receiver _ args => receiver.newElements ++ Expr.newElementsIn args
  | _ => []

/-- The element types of the arrays that expressions create. -/
def Expr.newElementsIn : List Expr → List Ty
  | [] => []
  | expr :: rest => expr.newElements ++ Expr.newElementsIn rest

end

mutual

/-- The element types of the arrays that a statement creates. -/
def Stmt.newElements : Stmt → List Ty
  | .assign target value => target.newElements ++ value.newElements
  | .expr value => value.newElements
  | .ret none => []
  | .ret (some value) => value.newElements
  | .ifElse cond thenBranch elseBranch =>
      cond.newElements ++ (thenBranch.newElements ++ elseBranch.newElements)
  | .whileLoop cond body => cond.newElements ++ body.newElements
  | .block body => Stmt.newElementsIn body

/-- The element types of the arrays that statements create. -/
def Stmt.newElementsIn : List Stmt → List Ty
  | [] => []
  | stmt :: rest => stmt.newElements ++ Stmt.newElementsIn rest

end

/-- Types of single values. -/
def AreSingle (tys : List Ty) : Prop := ∀ ty ∈ tys, ty.isArray = false

@[simp] theorem areSingle_nil : AreSingle [] := List.forall_mem_nil _

@[simp] theorem areSingle_cons (ty : Ty) (tys : List Ty) :
    AreSingle (ty :: tys) ↔ ty.isArray = false ∧ AreSingle tys := List.forall_mem_cons

@[simp] theorem areSingle_append (first second : List Ty) :
    AreSingle (first ++ second) ↔ AreSingle first ∧ AreSingle second := List.forall_mem_append

/-- Import names that are not listed part by part and not in brackets. -/
def Import.IsDotted (name : String) : Prop :=
  ¬[',', ' '] <:+: name.toList ∧
    ¬(name.toList.head? = some '[' ∧ name.toList.getLast? = some ']')

/-- Methods that conversion gives back: `main` takes a parameter, and the elements of new
arrays are single values. -/
def MethodDecl.IsNormal (method : MethodDecl) : Prop :=
  (method.name = "main" → method.params ≠ []) ∧
    AreSingle (Stmt.newElementsIn method.body)

/-- Programs that conversion gives back. -/
def Program.IsNormal (program : Program) : Prop :=
  (∀ name ∈ program.imports, Import.IsDotted name) ∧
    ∀ method ∈ program.decl.methods, method.IsNormal

theorem element_eq_self_iff (ty : Ty) : ty.element = ty ↔ ty.isArray = false := by
  obtain ⟨name, shape⟩ := ty
  cases shape <;> simp [Ty.element, Ty.named, Ty.isArray]

mutual

theorem normal_eq_self_iff_expr : (expr : Expr) →
    (expr.normal = expr ↔ AreSingle expr.newElements)
  | .int _ | .bool _ | .string _ | .self | .var _ | .newObject _ => by
      simp [Expr.normal, Expr.newElements]
  | .binary op left right => by
      simp [Expr.normal, Expr.newElements, normal_eq_self_iff_expr left,
        normal_eq_self_iff_expr right]
  | .not operand => by
      simp [Expr.normal, Expr.newElements, normal_eq_self_iff_expr operand]
  | .paren inner => by
      simp [Expr.normal, Expr.newElements, normal_eq_self_iff_expr inner]
  | .index array position => by
      simp [Expr.normal, Expr.newElements, normal_eq_self_iff_expr array,
        normal_eq_self_iff_expr position]
  | .length array => by
      simp [Expr.normal, Expr.newElements, normal_eq_self_iff_expr array]
  | .newArray elem size => by
      simp [Expr.normal, Expr.newElements, normal_eq_self_iff_expr size, element_eq_self_iff]
  | .arrayInit elements => by
      simp [Expr.normal, Expr.newElements, normals_eq_self_iff_expr elements]
  | .selfCall name args => by
      simp [Expr.normal, Expr.newElements, normals_eq_self_iff_expr args]
  | .call receiver name args => by
      simp [Expr.normal, Expr.newElements, normal_eq_self_iff_expr receiver,
        normals_eq_self_iff_expr args]

theorem normals_eq_self_iff_expr : (exprs : List Expr) →
    (Expr.normals exprs = exprs ↔ AreSingle (Expr.newElementsIn exprs))
  | [] => by simp [Expr.normals, Expr.newElementsIn]
  | expr :: rest => by
      simp [Expr.normals, Expr.newElementsIn, normal_eq_self_iff_expr expr,
        normals_eq_self_iff_expr rest]

end

mutual

theorem normal_eq_self_iff_stmt : (stmt : Stmt) →
    (stmt.normal = stmt ↔ AreSingle stmt.newElements)
  | .assign target value => by
      simp [Stmt.normal, Stmt.newElements, normal_eq_self_iff_expr]
  | .expr value => by simp [Stmt.normal, Stmt.newElements, normal_eq_self_iff_expr]
  | .ret none => by simp [Stmt.normal, Stmt.newElements]
  | .ret (some value) => by simp [Stmt.normal, Stmt.newElements, normal_eq_self_iff_expr]
  | .ifElse cond thenBranch elseBranch => by
      simp [Stmt.normal, Stmt.newElements, normal_eq_self_iff_expr,
        normal_eq_self_iff_stmt thenBranch, normal_eq_self_iff_stmt elseBranch]
  | .whileLoop cond body => by
      simp [Stmt.normal, Stmt.newElements, normal_eq_self_iff_expr, normal_eq_self_iff_stmt body]
  | .block body => by simp [Stmt.normal, Stmt.newElements, normals_eq_self_iff_stmt body]

theorem normals_eq_self_iff_stmt : (stmts : List Stmt) →
    (Stmt.normals stmts = stmts ↔ AreSingle (Stmt.newElementsIn stmts))
  | [] => by simp [Stmt.normals, Stmt.newElementsIn]
  | stmt :: rest => by
      simp [Stmt.normals, Stmt.newElementsIn, normal_eq_self_iff_stmt stmt,
        normals_eq_self_iff_stmt rest]

end

/-! ### Imports -/

theorem length_joinParts_le (text : List Char) : (Import.joinParts text).length ≤ text.length := by
  fun_induction Import.joinParts text with
  | case1 rest ih =>
      simp only [List.length_cons]
      omega
  | case2 char rest _ ih => exact Nat.succ_le_succ ih
  | case3 => exact Nat.le_refl 0

theorem joinParts_eq_self_iff (text : List Char) :
    Import.joinParts text = text ↔ ¬[',', ' '] <:+: text := by
  fun_induction Import.joinParts text with
  | case1 rest _ =>
      have listed : [',', ' '] <:+: ',' :: ' ' :: rest := ⟨[], rest, rfl⟩
      simp [listed]
  | case2 char rest notListed ih =>
      have noPrefix : ¬[',', ' '] <+: char :: rest := by
        rintro ⟨others, same⟩
        cases same
        exact notListed others rfl rfl
      simp [List.infix_cons_iff, noPrefix, ih]
  | case3 => simp

/-- A text in brackets gets shorter, and any other text stays. -/
theorem unbracket_cases (text : List Char) :
    ((text.head? = some '[' ∧ text.getLast? = some ']') ∧
        (Import.unbracket text).length < text.length) ∨
      (¬(text.head? = some '[' ∧ text.getLast? = some ']') ∧ Import.unbracket text = text) := by
  unfold Import.unbracket
  split
  · next rest =>
      have closes : ('[' :: rest).getLast? = some ']' ↔ rest.getLast? = some ']' := by
        cases rest with
        | nil => simp
        | cons char rest => rw [List.getLast?_cons_cons]
      by_cases closed : rest.getLast? = some ']'
      · rw [if_pos closed]
        refine .inl ⟨⟨rfl, closes.mpr closed⟩, ?_⟩
        rw [List.length_dropLast, List.length_cons]
        omega
      · rw [if_neg closed]
        exact .inr ⟨fun bracketed => closed (closes.mp bracketed.2), rfl⟩
  · next notOpened =>
      refine .inr ⟨?_, rfl⟩
      rintro ⟨opened, _⟩
      obtain ⟨rest, same⟩ := List.head?_eq_some_iff.mp opened
      exact notOpened rest same

theorem ofText_eq_self_iff (name : String) : Import.ofText name = name ↔ Import.IsDotted name := by
  rw [Import.ofText, ← String.toList_inj, String.toList_ofList, Import.IsDotted]
  rcases unbracket_cases name.toList with ⟨bracketed, shorter⟩ | ⟨notBracketed, stays⟩
  · refine iff_of_false ?_ fun isDotted => isDotted.2 bracketed
    intro same
    have lengthLe := length_joinParts_le (Import.unbracket name.toList)
    rw [same] at lengthLe
    exact Nat.not_lt_of_le lengthLe shorter
  · rw [stays, joinParts_eq_self_iff, and_iff_left notBracketed]

/-! ### Round trip -/

theorem map_eq_self_iff {α : Type} {change : α → α} {values : List α} :
    values.map change = values ↔ ∀ value ∈ values, change value = value := by
  have same := @List.map_inj_left _ _ values change id
  rwa [List.map_id] at same

theorem normal_eq_self_iff_method (method : MethodDecl) :
    method.normal = method ↔ method.IsNormal := by
  obtain ⟨name, returnTy, params, locals, body, isStatic, isPublic⟩ := method
  have paramsEq : (if name = "main" ∧ params.isEmpty then [⟨"args", Ty.arrayOf "String"⟩]
      else params) = params ↔ (name = "main" → params ≠ []) := by
    cases params with
    | nil => by_cases isMain : name = "main" <;> simp [isMain]
    | cons param params => simp
  simp only [MethodDecl.normal, MethodDecl.IsNormal, MethodDecl.mk.injEq, true_and, and_true,
    paramsEq, normals_eq_self_iff_stmt]

theorem normal_eq_self_iff_program (program : Program) :
    program.normal = program ↔ program.IsNormal := by
  obtain ⟨imports, name, superClass, fields, methods⟩ := program
  simp only [Program.normal, Program.IsNormal, Program.mk.injEq, ClassDecl.mk.injEq, true_and,
    map_eq_self_iff, ofText_eq_self_iff, normal_eq_self_iff_method]

/-- Conversion gives back exactly the programs in normal form: those whose imports are
dotted, whose methods called `main` take a parameter and whose new arrays have single
elements. Whether new arrays of integers name their elements makes no difference. -/
theorem ofNode_toNode_eq_ok_iff (brief : Bool) (program : Program) :
    Program.ofNode (program.toNode brief) = .ok program ↔ program.IsNormal := by
  rw [ofNode_toNode_program, Except.ok.injEq, normal_eq_self_iff_program]

end ClassCompiler
