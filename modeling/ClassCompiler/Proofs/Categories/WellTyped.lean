import ClassCompiler.Proofs.Emission.Code
import ClassCompiler.Proofs.Semantics.Occurrences

/-!
# Well-typed programs

A value is kept as an integer or as a reference. A program is well typed if operators,
conditions, positions and sizes have the types that they need, arrays and receivers are
references, and every value is of the category of the place to which it goes.

Calls of other classes and array literals have the type that is expected of them. An argument
is expected to have the type of its parameter, an assigned value that of its place, and a
returned value that of the method. An array that is indexed or measured is expected to hold
integers, a receiver to be an object of the own class, and where nothing is declared an
integer is expected.
-/

namespace ClassCompiler.Semantics

open StackCode (valueCategory)

/-! ## Conditions -/

/-- Types whose values are kept alike, as integers or as references. -/
def SameCategory (first second : Ty) : Prop := valueCategory first = valueCategory second

instance (first second : Ty) : Decidable (SameCategory first second) :=
  inferInstanceAs (Decidable (valueCategory first = valueCategory second))

/-- The types that both operands of an operator may have. Truth values can be compared for
equality only. -/
def operandTypes : BinaryOp → List Ty
  | .and => [Ty.boolean]
  | .compare .equal | .compare .notEqual => [Ty.int, Ty.boolean]
  | _ => [Ty.int]

/-- Arguments that are passed are of the categories of their parameters, and those that are
collected of that of the elements. -/
def TakesArguments (own : Option MethodSignature) (tys : List Ty) : Prop :=
  (∀ pair ∈ (passedTys own tys).zip (paramsOf own), SameCategory pair.1 pair.2.ty) ∧
    ∀ collected ∈ collected? own tys, ∀ ty ∈ tys.drop collected.1, SameCategory ty collected.2

instance (own : Option MethodSignature) (tys : List Ty) : Decidable (TakesArguments own tys) :=
  inferInstanceAs (Decidable (_ ∧ _))

/-- A return gives a value exactly in a method that has a result, and one of its
category. The entry point returns in any way. -/
def ReturnsFrom (signature : MethodSignature) (value : Option Ty) : Prop :=
  signature.isMain = true ∨
    match value with
    | none => signature.returnTy.isVoid = true
    | some ty => signature.returnTy.isVoid = false ∧ SameCategory ty signature.returnTy

instance (signature : MethodSignature) (value : Option Ty) :
    Decidable (ReturnsFrom signature value) := by
  cases value <;> unfold ReturnsFrom <;> infer_instance

/-! ## Bodies -/

namespace Context

mutual

/-- Whether an expression is well typed where a type is expected. -/
def isTyped (context : Context) : Expr → Ty → Bool
  | .int _, _ | .bool _, _ | .string _, _ | .var _, _ | .newObject _, _ => true
  | .self, _ => !context.signature.isStatic
  | .paren inner, expected => context.isTyped inner expected
  | .binary op left right, _ =>
      (operandTypes op).any fun ty =>
        (context.isTyped left ty && context.typeOf left ty == ty) &&
          (context.isTyped right ty && context.typeOf right ty == ty)
  | .not operand, _ =>
      context.isTyped operand Ty.boolean && context.typeOf operand Ty.boolean == Ty.boolean
  | .index array position, _ =>
      (context.isTyped array (Ty.arrayOf "int") &&
          (context.typeOf array (Ty.arrayOf "int")).isArray) &&
        (context.isTyped position Ty.int && context.typeOf position Ty.int == Ty.int)
  | .length array, _ =>
      context.isTyped array (Ty.arrayOf "int") &&
        (context.typeOf array (Ty.arrayOf "int")).isArray
  | .newArray _ size, _ =>
      context.isTyped size Ty.int && context.typeOf size Ty.int == Ty.int
  | .arrayInit elements, expected =>
      context.areTyped (fun _ => elementTy expected) elements &&
        decide (∀ ty ∈ context.typesOf (fun _ => elementTy expected) elements,
          SameCategory ty (elementTy expected))
  | .selfCall name args, _ =>
      let own := context.table.method? name
      context.areTyped (expectedArgument own args) args &&
        decide (TakesArguments own (context.typesOf (expectedArgument own args) args))
  | .call receiver name args, _ =>
      let receiverTy := context.typeOf receiver context.table.classTy
      let own := context.callee? receiver receiverTy name
      ((context.classNamed? receiver).isSome ||
          context.isTyped receiver context.table.classTy && valueCategory receiverTy = .ref) &&
        (context.areTyped (expectedArgument own args) args &&
          decide (TakesArguments own (context.typesOf (expectedArgument own args) args)))

/-- Whether expressions are well typed, each where its own type is expected. -/
def areTyped (context : Context) : (Nat → Ty) → List Expr → Bool
  | _, [] => true
  | expectedAt, expr :: rest =>
      context.isTyped expr (expectedAt 0) &&
        context.areTyped (fun position => expectedAt (position + 1)) rest

end

/-- Whether an expression is well typed and of the type that is expected. -/
def hasTy (context : Context) (expr : Expr) (ty : Ty) : Bool :=
  context.isTyped expr ty && context.typeOf expr ty == ty

/-- Whether a value is well typed and can go to a place of a type. -/
def goesTo (context : Context) (value : Expr) (ty : Ty) : Bool :=
  context.isTyped value ty && decide (SameCategory (context.typeOf value ty) ty)

/-- Whether an assignment is well typed. -/
def assignIsTyped (context : Context) (target value : Expr) : Bool :=
  match target.unparen with
  | .var name =>
      match context.resolve? name with
      | some (.declared ty) => context.goesTo value ty
      | some (.field ty) => context.goesTo value ty
      | _ => false
  | .index array position =>
      context.isTyped (.index array position) (context.elementOf array) &&
        context.goesTo value (context.elementOf array)
  | _ => false

/-- Whether a return is well typed. The entry point does not evaluate what it returns. -/
def returnIsTyped (context : Context) : Option Expr → Bool
  | none => decide (ReturnsFrom context.signature none)
  | some value =>
      context.signature.isMain ||
        context.isTyped value context.signature.returnTy &&
          decide (ReturnsFrom context.signature
            (some (context.typeOf value context.signature.returnTy)))

mutual

/-- Whether a statement is well typed. -/
def stmtIsTyped (context : Context) : Stmt → Bool
  | .assign target value => context.assignIsTyped target value
  | .expr expr => context.isTyped expr Ty.void
  | .ret value => context.returnIsTyped value
  | .ifElse cond thenBranch elseBranch =>
      context.hasTy cond Ty.boolean &&
        (context.stmtIsTyped thenBranch && context.stmtIsTyped elseBranch)
  | .whileLoop cond body =>
      context.hasTy cond Ty.boolean && context.stmtIsTyped body
  | .block body => context.bodyIsTyped body

/-- Whether statements are well typed. -/
def bodyIsTyped (context : Context) : List Stmt → Bool
  | [] => true
  | stmt :: rest => context.stmtIsTyped stmt && context.bodyIsTyped rest

end

end Context

/-! ## Programs -/

/-- Programs all of whose bodies are well typed. -/
def IsWellTyped (table : SymbolTable) (program : Program) : Prop :=
  ∀ decl ∈ program.decl.methods, ∀ signature ∈ table.method? decl.name,
    (Context.mk table signature).bodyIsTyped decl.body = true

instance (table : SymbolTable) (program : Program) : Decidable (IsWellTyped table program) :=
  inferInstanceAs (Decidable (∀ decl ∈ program.decl.methods, ∀ signature ∈ table.method? decl.name,
    (Context.mk table signature).bodyIsTyped decl.body = true))

/-- There is no type of references among some types. -/
abbrev NoReferences (types : List Ty) : Prop := ∀ ty ∈ types, valueCategory ty = .int

/-- Programs in which no types of references are overlooked: no literal of references stands
alone for collected arguments, and no result of another class is stored into an element of an
array of references that has no name. -/
def HeedsReferences (table : SymbolTable) (program : Program) : Prop :=
  ∀ decl ∈ program.decl.methods, ∀ signature ∈ table.method? decl.name,
    NoReferences ((Context.mk table signature).bodyOverlooked decl.body)

instance (table : SymbolTable) (program : Program) : Decidable (HeedsReferences table program) :=
  inferInstanceAs (Decidable (∀ decl ∈ program.decl.methods, ∀ signature ∈ table.method? decl.name,
    NoReferences ((Context.mk table signature).bodyOverlooked decl.body)))

end ClassCompiler.Semantics
