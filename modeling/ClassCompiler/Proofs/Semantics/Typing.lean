import ClassCompiler.ThreeAddress.Scope

/-!
# Static types

The type of an expression follows from the declarations around it and from the
type that its context expects. The expectation decides only where declarations
say nothing: for the result of a call to another class, and for the elements of
an array literal. What a context expects follows from declarations too: an argument
has the type of its parameter, and an assigned value that of the place where it goes.
-/

namespace ClassCompiler.Semantics

open ThreeAddress (Binding)

/-- The names of the types that are not classes. -/
def valueTypeNames : List String := ["int", "boolean", "void"]

theorem isVoid_of_name_ne {ty : Ty} (nameNe : ty.name ≠ "void") : ty.isVoid = false := by
  rw [Ty.isVoid, beq_eq_false_iff_ne]
  rintro rfl
  exact nameNe rfl

/-- The class and the method in which an expression stands. -/
structure Context where
  table : SymbolTable
  signature : MethodSignature
deriving DecidableEq, Repr, Inhabited

namespace Context

/-- What a name stands for: a local, a parameter, a field of the object that the method
has, or a class. -/
def resolve? (context : Context) (name : String) : Option Binding :=
  let declared := context.signature.locals ++ context.signature.params
  let visible := if context.signature.isStatic then [] else context.table.fields
  match declared.find? (fun symbol => symbol.name == name) with
  | some symbol => some (.declared symbol.ty)
  | none =>
      match visible.find? (fun symbol => symbol.name == name) with
      | some symbol => some (.field symbol.ty)
      | none => if context.table.isClassName name then some .className else none

/-- A name that resolves to a declaration is that of a local or a parameter. -/
theorem exists_symbol_of_resolve {context : Context} {name : String} {ty : Ty}
    (resolves : context.resolve? name = some (.declared ty)) :
    ∃ symbol ∈ context.signature.params ++ context.signature.locals,
      symbol.name = name ∧ symbol.ty = ty := by
  unfold resolve? at resolves
  dsimp only at resolves
  split at resolves
  · next symbol found =>
      cases resolves
      have member := List.mem_of_find?_eq_some found
      rw [List.mem_append] at member
      exact ⟨symbol, List.mem_append.mpr member.symm, by simpa using List.find?_some found, rfl⟩
  · split at resolves
    · cases resolves
    · split at resolves <;> cases resolves

/-- A name that resolves to a field is that of a field, and the method has an object. -/
theorem exists_field_of_resolve {context : Context} {name : String} {ty : Ty}
    (resolves : context.resolve? name = some (.field ty)) :
    context.signature.isStatic = false ∧
      ∃ symbol, context.table.field? name = some symbol ∧ symbol.ty = ty := by
  unfold resolve? at resolves
  dsimp only at resolves
  split at resolves
  · cases resolves
  · split at resolves
    · next symbol visible =>
        cases resolves
        split at visible
        · cases visible
        · next isInstance => exact ⟨by simpa using isInstance, symbol, visible, rfl⟩
    · split at resolves <;> cases resolves

/-- The class that an expression names when it stands as the receiver of a call. -/
def classNamed? (context : Context) (receiver : Expr) : Option String :=
  match receiver.unparen with
  | .var name => if context.resolve? name = some .className then some name else none
  | _ => none

/-- The method of the current class that a call on a class addresses. -/
def staticCallee? (context : Context) (className name : String) : Option MethodSignature :=
  if className = context.table.className then context.table.method? name else none

/-- The method of the current class that a call on an object addresses. -/
def instanceCallee? (context : Context) (ty : Ty) (name : String) : Option MethodSignature :=
  if ty = context.table.classTy then context.table.method? name else none

/-- The method of the current class that a call on a receiver addresses. -/
def callee? (context : Context) (receiver : Expr) (receiverTy : Ty) (name : String) :
    Option MethodSignature :=
  match context.classNamed? receiver with
  | some className => context.staticCallee? className name
  | none => context.instanceCallee? receiverTy name

/-- The result type of a call: the declared one, or the expected one. -/
def resultTy (own : Option MethodSignature) (expected : Ty) : Ty :=
  (own.map MethodSignature.returnTy).getD expected

/-- The element type of an array literal: that of the array that is expected, or `int`. -/
def elementTy (expected : Ty) : Ty := if expected.isArray then expected.element else Ty.int

/-- The type of an expression where a type is expected. -/
def typeOf (context : Context) : Expr → Ty → Ty
  | .int _, _ => Ty.int
  | .bool _, _ => Ty.boolean
  | .string _, _ => Ty.string
  | .self, _ => context.table.classTy
  | .paren inner, expected => context.typeOf inner expected
  | .var name, _ =>
      match context.resolve? name with
      | some (.declared ty) => ty
      | some (.field ty) => ty
      | _ => Ty.named name
  | .binary op _ _, _ => op.resultTy
  | .not _, _ => Ty.boolean
  | .index array _, _ => (context.typeOf array (Ty.arrayOf "int")).element
  | .length _, _ => Ty.int
  | .newArray elem _, _ => Ty.arrayOf elem.name
  | .arrayInit _, expected => Ty.arrayOf (elementTy expected).name
  | .newObject className, _ => Ty.named className
  | .selfCall name _, expected => resultTy (context.table.method? name) expected
  | .call receiver name _, expected =>
      resultTy
        (context.callee? receiver (context.typeOf receiver context.table.classTy) name) expected

/-- The types of expressions, each where its own type is expected. -/
def typesOf (context : Context) : (Nat → Ty) → List Expr → List Ty
  | _, [] => []
  | expectedAt, expr :: rest =>
      context.typeOf expr (expectedAt 0) ::
        context.typesOf (fun position => expectedAt (position + 1)) rest

/-- The type of the elements of an array. Where nothing is declared it holds integers. -/
def elementOf (context : Context) (array : Expr) : Ty :=
  (context.typeOf array (Ty.arrayOf "int")).element

end Context

/-! ## Arguments -/

/-- The parameters of a method of the current class; nothing is declared of others. -/
def paramsOf (own : Option MethodSignature) : List Symbol := own.elim [] MethodSignature.params

/-- The type of the elements that a method collects, if its last parameter is written with
dots. -/
def collectedElement? (own : Option MethodSignature) : Option Ty :=
  (paramsOf own).getLast?.bind fun last =>
    if last.ty.shape = .vararg then some last.ty.element else none

/-- The arguments that a call collects into an array: those from a position on, as
elements of a type. A method with fixed parameters collects none, and a single
array is passed on as it is. -/
def collected? (own : Option MethodSignature) (tys : List Ty) : Option (Nat × Ty) :=
  match collectedElement? own with
  | none => none
  | some elem =>
      match tys.drop ((paramsOf own).length - 1) with
      | [ty] => if ty.isArray then none else some ((paramsOf own).length - 1, elem)
      | _ => some ((paramsOf own).length - 1, elem)

/-- Whether an expression is an array literal, apart from parentheses. -/
def isArrayLiteral (expr : Expr) : Bool :=
  match expr.unparen with
  | .arrayInit _ => true
  | _ => false

/-- Whether an array literal stands alone for the arguments that a call collects. -/
def literalAlone (own : Option MethodSignature) (args : List Expr) : Bool :=
  args.length == (paramsOf own).length && args.getLast?.any isArrayLiteral

/-- The type that is expected of an argument: that of its parameter, or of an element if it
is collected. A literal that stands alone is the array of these elements. Where nothing is
declared an integer is expected. -/
def expectedArgument (own : Option MethodSignature) (args : List Expr) (position : Nat) : Ty :=
  let declared := ((paramsOf own)[position]?.map Symbol.ty).getD Ty.int
  match collectedElement? own with
  | none => declared
  | some elem =>
      if position + 1 < (paramsOf own).length then declared
      else if literalAlone own args then Ty.arrayOf elem.name
      else elem

/-- Whether an expression is a call, apart from parentheses. -/
def isCall (expr : Expr) : Bool :=
  match expr.unparen with
  | .selfCall _ _ | .call _ _ _ => true
  | _ => false

/-- Whether the result of an expression is written straight into a variable. -/
def writesInto (value : Expr) (declared : Ty) : Bool :=
  match value.unparen with
  | .binary op _ _ => op.resultTy = declared
  | _ => isCall value

end ClassCompiler.Semantics
