import ClassCompiler.Proofs.Semantics.Hints

/-!
# Occurrences of operations

A method body is a tree. What a checker wants to know of it is, for every operation
that stands in it, the types of its operands and where its result goes. The list of
these occurrences, in the order of evaluation, is what conditions on programs are
stated about: a condition on a body is one on each of its occurrences.
-/

namespace ClassCompiler.Semantics

open ThreeAddress (Binding argumentTy literalElement)

/-- Where the result of an operator or a call goes: into a temporary, into a variable of
a declared type, or nowhere. -/
inductive Dest where
  | temporary
  | into (declared : Ty)
  | dropped
deriving DecidableEq, Repr, Inhabited

/-- Who receives a call: a class, or an object of a type. -/
inductive Target where
  | onClass (className : String)
  | onObject (ty : Ty)
deriving DecidableEq, Repr, Inhabited

/-- An operation with the types of its operands. A call also tells which method of the
current class it addresses, and the types of the arguments that are passed. -/
inductive Occurrence where
  | self
  | reference (name : String) (binding : Option Binding)
  | operator (op : BinaryOp) (left right : Ty) (dest : Dest)
  | negation (operand : Ty)
  | element (array position : Ty)
  | length (array : Ty)
  | newArray (elem size : Ty)
  | array (elem : Ty) (elements : List Ty)
  | newObject (className : String)
  | call (own : Option MethodSignature) (target : Target) (name : String) (passed : List Ty)
      (result : Ty) (dest : Dest)
  | assign (declared value : Ty)
  | assignField (name : String) (declared value : Ty)
  | assignElement (array position value : Ty)
  | invalidTarget
  | condition (ty : Ty)
  | returns (value : Option Ty)
deriving DecidableEq, Repr, Inhabited

/-- The number of temporaries that an operation takes. -/
def Occurrence.tempCount : Occurrence → Nat
  | .reference _ (some (.field _)) | .negation _ | .element _ _ | .length _ | .newArray _ _
  | .array _ _ | .newObject _ => 1
  | .operator _ _ _ dest | .call _ _ _ _ _ dest => if dest = .temporary then 1 else 0
  | _ => 0

/-- Every operation in a list satisfies a condition. -/
abbrev AllOf (condition : Occurrence → Prop) (occurrences : List Occurrence) : Prop :=
  ∀ occurrence ∈ occurrences, condition occurrence

/-! ## Arguments -/

/-- The array into which a call collects arguments. -/
def collectedArray (own : Option MethodSignature) (tys : List Ty) : List Occurrence :=
  match collected? own tys with
  | some (fixed, elem) => [.array elem (tys.drop fixed)]
  | none => []

/-- The types of the arguments that are passed after some of them were collected. -/
def passedTys (own : Option MethodSignature) (tys : List Ty) : List Ty :=
  match collected? own tys with
  | some (fixed, elem) => tys.take fixed ++ [Ty.arrayOf elem.name]
  | none => tys

/-! ## Bodies -/

namespace Context

/-- Who receives a call that names no receiver. -/
def selfTarget (context : Context) (name : String) : Target :=
  if context.signature.isStatic || (context.table.method? name).any MethodSignature.isStatic then
    .onClass context.table.className
  else .onObject context.table.classTy

/-- The method of the current class that a target addresses. -/
def targetCallee? (context : Context) (name : String) : Target → Option MethodSignature
  | .onClass className => context.staticCallee? className name
  | .onObject ty => context.instanceCallee? ty name

theorem targetCallee?_selfTarget (context : Context) (name : String) :
    context.targetCallee? name (context.selfTarget name) = context.table.method? name := by
  unfold selfTarget
  split
  · exact if_pos rfl
  · exact if_pos rfl

/-- Who receives a call on an object. -/
def objectTarget (context : Context) (own : Option MethodSignature) (ty : Ty) : Target :=
  if own.any MethodSignature.isStatic then .onClass context.table.className else .onObject ty

/-- A static method is addressed on the class also where the source names an object. -/
theorem targetCallee?_objectTarget (context : Context) (ty : Ty) (name : String) :
    context.targetCallee? name (context.objectTarget (context.instanceCallee? ty name) ty) =
      context.instanceCallee? ty name := by
  unfold objectTarget
  split
  · next isStatic =>
      by_cases isOwn : ty = context.table.classTy
      · rw [instanceCallee?, if_pos isOwn]
        exact if_pos rfl
      · rw [instanceCallee?, if_neg isOwn] at isStatic
        cases isStatic
  · rfl

mutual

/-- The occurrences in an expression, where a type is expected and the result of a call
or an operator has a destination. -/
def occurrences (context : Context) : Expr → Ty → Dest → List Occurrence
  | .int _, _, _ | .bool _, _, _ | .string _, _, _ => []
  | .self, _, _ => [.self]
  | .paren inner, expected, dest => context.occurrences inner expected dest
  | .var name, _, _ => [.reference name (context.resolve? name)]
  | .binary op left right, _, dest =>
      context.occurrences left op.operandTy .temporary ++
        context.occurrences right op.operandTy .temporary ++
        [.operator op (context.typeOf left op.operandTy) (context.typeOf right op.operandTy) dest]
  | .not operand, _, _ =>
      context.occurrences operand Ty.boolean .temporary ++
        [.negation (context.typeOf operand Ty.boolean)]
  | .index array position, _, _ =>
      context.occurrences array (Ty.arrayOf "int") .temporary ++
        context.occurrences position Ty.int .temporary ++
        [.element (context.typeOf array (Ty.arrayOf "int")) (context.typeOf position Ty.int)]
  | .length array, _, _ =>
      context.occurrences array (Ty.arrayOf "int") .temporary ++
        [.length (context.typeOf array (Ty.arrayOf "int"))]
  | .newArray elem size, _, _ =>
      context.occurrences size Ty.int .temporary ++ [.newArray elem (context.typeOf size Ty.int)]
  | .arrayInit elements, expected, _ =>
      context.occurrencesAll (fun _ => literalElement expected) elements ++
        [.array (literalElement expected)
          (context.typesOf (fun _ => literalElement expected) elements)]
  | .newObject className, _, _ => [.newObject className]
  | .selfCall name args, expected, dest =>
      let own := context.table.method? name
      let tys := context.typesOf (argumentTy own) args
      context.occurrencesAll (argumentTy own) args ++ collectedArray own tys ++
        [.call own (context.selfTarget name) name (passedTys own tys) (resultTy own expected) dest]
  | .call receiver name args, expected, dest =>
      match context.classNamed? receiver with
      | some className =>
          let own := context.staticCallee? className name
          let tys := context.typesOf (argumentTy own) args
          context.occurrencesAll (argumentTy own) args ++ collectedArray own tys ++
            [.call own (.onClass className) name (passedTys own tys) (resultTy own expected) dest]
      | none =>
          let receiverTy := context.typeOf receiver context.table.classTy
          let own := context.instanceCallee? receiverTy name
          let tys := context.typesOf (argumentTy own) args
          context.occurrences receiver context.table.classTy .temporary ++
            context.occurrencesAll (argumentTy own) args ++ collectedArray own tys ++
            [.call own (context.objectTarget own receiverTy) name (passedTys own tys)
              (resultTy own expected) dest]

/-- The occurrences in expressions, each where its own type is expected. -/
def occurrencesAll (context : Context) : (Nat → Ty) → List Expr → List Occurrence
  | _, [] => []
  | expectedAt, expr :: rest =>
      context.occurrences expr (expectedAt 0) .temporary ++
        context.occurrencesAll (fun position => expectedAt (position + 1)) rest

end

/-- The occurrences in an assignment to a variable. -/
def variableOccurrences (context : Context) (declared : Ty) (value : Expr) : List Occurrence :=
  if writesInto value declared then context.occurrences value declared (.into declared)
  else
    context.occurrences value declared .temporary ++
      [.assign declared (context.typeOf value declared)]

/-- The occurrences in an assignment. An assignment to an element evaluates the value
first, then the array and the position. -/
def assignOccurrences (context : Context) (target value : Expr) : List Occurrence :=
  match target.unparen with
  | .var name =>
      match context.resolve? name with
      | some (.declared ty) => context.variableOccurrences ty value
      | some (.field ty) =>
          context.occurrences value ty .temporary ++
            [.assignField name ty (context.typeOf value ty)]
      | _ => [.invalidTarget]
  | .index array position =>
      let elem := context.assignedElement array
      context.occurrences value elem .temporary ++
        context.occurrences array (Ty.arrayOf elem.name) .temporary ++
        context.occurrences position Ty.int .temporary ++
        [.assignElement (context.typeOf array (Ty.arrayOf elem.name))
          (context.typeOf position Ty.int) (context.typeOf value elem)]
  | _ => [.invalidTarget]

/-- The occurrences in a return. The entry point returns no value. -/
def returnOccurrences (context : Context) : Option Expr → List Occurrence
  | none => [.returns none]
  | some value =>
      if context.signature.isMain then [.returns none]
      else
        context.occurrences value context.signature.returnTy .temporary ++
          [.returns (some (context.typeOf value context.signature.returnTy))]

mutual

/-- The occurrences in a statement. A conditional has its negative branch first, and a
loop negates its condition. -/
def stmtOccurrences (context : Context) : Stmt → List Occurrence
  | .assign target value => context.assignOccurrences target value
  | .expr expr =>
      context.occurrences expr Ty.void (if isCall expr then .dropped else .temporary)
  | .ret value => context.returnOccurrences value
  | .ifElse cond thenBranch elseBranch =>
      context.occurrences cond Ty.boolean .temporary ++
        [.condition (context.typeOf cond Ty.boolean)] ++ context.stmtOccurrences elseBranch ++
        context.stmtOccurrences thenBranch
  | .whileLoop cond body =>
      context.occurrences cond Ty.boolean .temporary ++
        [.negation (context.typeOf cond Ty.boolean), .condition Ty.boolean] ++
        context.stmtOccurrences body
  | .block body => context.bodyOccurrences body

/-- The occurrences in statements. -/
def bodyOccurrences (context : Context) : List Stmt → List Occurrence
  | [] => []
  | stmt :: rest => context.stmtOccurrences stmt ++ context.bodyOccurrences rest

end

/-- Parentheses do not matter. -/
theorem occurrences_unparen (context : Context) (expr : Expr) (expected : Ty) (dest : Dest) :
    context.occurrences expr.unparen expected dest = context.occurrences expr expected dest := by
  fun_induction Expr.unparen expr with
  | case1 inner ih => rw [ih, occurrences]
  | case2 => rfl

end Context

end ClassCompiler.Semantics
