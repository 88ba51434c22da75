import ClassCompiler.Proofs.Semantics.Typing
import ClassCompiler.ThreeAddress.OfStmt

/-!
# Types that lowering expects

Lowering hands down the type that it expects of each expression. This is the type that the
declarations give, but for two places. Of a literal that stands alone for the arguments that
a call collects, lowering expects an element, which is no array, so it takes the elements of
the literal for integers. Of a value that is assigned to an element of an array, it knows the
type only if the array is a variable or a field.
-/

namespace ClassCompiler.Semantics

open ThreeAddress (argumentTy calleeParams varargElement?)

/-! ## Agreement with the declarations -/

theorem paramsOf_eq (own : Option MethodSignature) : paramsOf own = calleeParams own := by
  cases own <;> rfl

theorem collectedElement?_eq (own : Option MethodSignature) :
    collectedElement? own = varargElement? own := by
  cases own with
  | none => rfl
  | some signature =>
      change signature.params.getLast?.bind _ = if signature.isVararg then _ else none
      unfold MethodSignature.isVararg
      cases signature.params.getLast? with
      | none => rfl
      | some last =>
          obtain ⟨name, element, shape⟩ := last
          cases shape <;> rfl

/-- The types that are expected of an argument differ only for a literal that stands alone. -/
theorem expectedArgument_cases (own : Option MethodSignature) (args : List Expr)
    (position : Nat) :
    expectedArgument own args position = argumentTy own position ∨
      ∃ elem, collectedElement? own = some elem ∧ literalAlone own args = true ∧
        (paramsOf own).length ≤ position + 1 ∧
        expectedArgument own args position = Ty.arrayOf elem.name ∧
        argumentTy own position = elem := by
  have hintEq : argumentTy own position =
      (collectedElement? own).elim (((paramsOf own)[position]?.map Symbol.ty).getD Ty.int)
        fun elem => if (paramsOf own).length - 1 ≤ position then elem
          else ((paramsOf own)[position]?.map Symbol.ty).getD Ty.int := by
    unfold argumentTy
    rw [collectedElement?_eq, paramsOf_eq]
    cases (calleeParams own)[position]? <;> cases varargElement? own <;> rfl
  rw [hintEq, expectedArgument]
  cases collectedElement? own with
  | none => exact .inl rfl
  | some elem =>
      dsimp only [Option.elim_some]
      by_cases fixed : position + 1 < (paramsOf own).length
      · have notTrailing : ¬(paramsOf own).length - 1 ≤ position := by omega
        rw [if_pos fixed, if_neg notTrailing]
        exact .inl rfl
      · have trailing : (paramsOf own).length - 1 ≤ position := by omega
        rw [if_neg fixed, if_pos trailing]
        by_cases alone : literalAlone own args = true
        · rw [if_pos alone]
          exact .inr ⟨elem, rfl, alone, Nat.le_of_not_lt fixed, rfl, rfl⟩
        · rw [if_neg alone]
          exact .inl rfl

/-- A literal that stands alone is the last argument. -/
theorem isArrayLiteral_of_literalAlone {own : Option MethodSignature} {args : List Expr}
    (alone : literalAlone own args = true) {position : Nat} {arg : Expr}
    (isArg : args[position]? = some arg) (trailing : (paramsOf own).length ≤ position + 1) :
    isArrayLiteral arg = true := by
  obtain ⟨lengthEq, isLiteral⟩ := Bool.and_eq_true_iff.mp alone
  have within := (List.getElem?_eq_some_iff.mp isArg).1
  have isLast : position = args.length - 1 := by
    have := eq_of_beq lengthEq
    omega
  rwa [List.getLast?_eq_getElem?, ← isLast, isArg] at isLiteral

namespace Context

/-- The type that lowering expects of a value that is assigned to an element of an array. -/
def assignedElement (context : Context) (array : Expr) : Ty :=
  match array.unparen with
  | .var name =>
      match context.resolve? name with
      | some (.declared ty) => ty.element
      | some (.field ty) => ty.element
      | _ => Ty.int
  | _ => Ty.int

theorem resolve?_eq (context : Context) (name : String) :
    context.resolve? name =
      ({ signature := context.signature } : ThreeAddress.Scope).resolve? context.table name := by
  unfold resolve? ThreeAddress.Scope.resolve?
  cases context.signature.isStatic <;> rfl

/-! ## Types that are overlooked -/

/-- Whether an expression is a call of another class, apart from parentheses. -/
def isOutsideCall (context : Context) (expr : Expr) : Bool :=
  match expr.unparen with
  | .selfCall name _ => (context.table.method? name).isNone
  | .call receiver name _ =>
      (context.callee? receiver (context.typeOf receiver context.table.classTy) name).isNone
  | _ => false

theorem isOutsideCall_of_isArrayLiteral {context : Context} {expr : Expr}
    (isLiteral : isArrayLiteral expr = true) : context.isOutsideCall expr = false := by
  unfold isArrayLiteral at isLiteral
  unfold isOutsideCall
  cases inner : expr.unparen with
  | arrayInit elements => rfl
  | _ => simp [inner] at isLiteral

/-- The element type of a literal that stands alone for collected arguments. -/
def literalTypes (own : Option MethodSignature) (args : List Expr) : List Ty :=
  if literalAlone own args then (collectedElement? own).toList else []

mutual

/-- The declared types that lowering overlooks in an expression. -/
def overlooked (context : Context) : Expr → List Ty
  | .int _ | .bool _ | .string _ | .self | .var _ | .newObject _ => []
  | .paren inner | .not inner | .length inner | .newArray _ inner => context.overlooked inner
  | .binary _ first second | .index first second =>
      context.overlooked first ++ context.overlooked second
  | .arrayInit elements => context.overlookedAll elements
  | .selfCall name args =>
      literalTypes (context.table.method? name) args ++ context.overlookedAll args
  | .call receiver name args =>
      literalTypes (context.callee? receiver
          (context.typeOf receiver context.table.classTy) name) args ++
        (context.overlooked receiver ++ context.overlookedAll args)

/-- The declared types that lowering overlooks in expressions. -/
def overlookedAll (context : Context) : List Expr → List Ty
  | [] => []
  | expr :: rest => context.overlooked expr ++ context.overlookedAll rest

end

/-- Parentheses do not matter. -/
theorem overlooked_unparen (context : Context) (expr : Expr) :
    context.overlooked expr.unparen = context.overlooked expr := by
  fun_induction Expr.unparen expr with
  | case1 inner ih => rw [ih, overlooked]
  | case2 => rfl

/-- The element type of an array without a name to which the result of an outside call is
assigned. -/
def storedTypes (context : Context) (array value : Expr) : List Ty :=
  match array.unparen with
  | .var _ => []
  | _ => if context.isOutsideCall value then [context.elementOf array] else []

/-- The declared types that lowering overlooks in an assignment. -/
def assignOverlooked (context : Context) (target value : Expr) : List Ty :=
  match target.unparen with
  | .index array position =>
      context.storedTypes array value ++ (context.overlooked value ++
        (context.overlooked array ++ context.overlooked position))
  | _ => context.overlooked value

mutual

/-- The declared types that lowering overlooks in a statement. The entry point does not
evaluate what it returns. -/
def stmtOverlooked (context : Context) : Stmt → List Ty
  | .assign target value => context.assignOverlooked target value
  | .expr expr => context.overlooked expr
  | .ret none => []
  | .ret (some value) => if context.signature.isMain then [] else context.overlooked value
  | .ifElse cond thenBranch elseBranch =>
      context.overlooked cond ++
        (context.stmtOverlooked thenBranch ++ context.stmtOverlooked elseBranch)
  | .whileLoop cond body => context.overlooked cond ++ context.stmtOverlooked body
  | .block body => context.bodyOverlooked body

/-- The declared types that lowering overlooks in statements. -/
def bodyOverlooked (context : Context) : List Stmt → List Ty
  | [] => []
  | stmt :: rest => context.stmtOverlooked stmt ++ context.bodyOverlooked rest

end

/-- Only integers are among the types that are overlooked. They are what lowering expects
anyway. -/
abbrev Heeded (types : List Ty) : Prop := ∀ ty ∈ types, ty = Ty.int

/-! ## Expectations that make no difference -/

/-- Two expectations that are alike for an expression, up to a relation of types: only outside
calls take the type as a whole, and only literals look at its elements. -/
def Alike (context : Context) (same : Ty → Ty → Prop) (expr : Expr) (declared hint : Ty) : Prop :=
  (context.isOutsideCall expr = true → same declared hint) ∧
    (isArrayLiteral expr = true → same (elementTy declared) (elementTy hint))

variable {context : Context} {same : Ty → Ty → Prop}

theorem Alike.refl (reflexive : ∀ ty, same ty ty) (context : Context) (expr : Expr) (ty : Ty) :
    context.Alike same expr ty ty :=
  ⟨fun _ => reflexive ty, fun _ => reflexive _⟩

/-- The types of an expression are related if the expectations are alike for it. -/
theorem Alike.typeOf (reflexive : ∀ ty, same ty ty)
    (arrays : ∀ {first second}, same first second →
      same (Ty.arrayOf first.name) (Ty.arrayOf second.name))
    {expr : Expr} {declared hint : Ty} (alike : context.Alike same expr declared hint) :
    same (context.typeOf expr declared) (context.typeOf expr hint) := by
  obtain ⟨outside, sameElements⟩ := alike
  have ofCall (own : Option MethodSignature) (sameIfNone : own.isNone = true → same declared hint) :
      same (resultTy own declared) (resultTy own hint) := by
    cases own with
    | none => exact sameIfNone rfl
    | some signature => exact reflexive _
  fun_induction Expr.unparen expr with
  | case1 inner ih =>
      rw [Context.typeOf, Context.typeOf]
      exact ih outside sameElements
  | case2 expr notParen =>
      cases expr with
      | paren inner => exact absurd rfl (notParen inner)
      | arrayInit elements =>
          rw [Context.typeOf, Context.typeOf]
          exact arrays (sameElements rfl)
      | selfCall name args | call receiver name args =>
          rw [Context.typeOf, Context.typeOf]
          exact ofCall _ outside
      | _ => exact reflexive _

theorem Alike.typeOf_eq {expr : Expr} {declared hint : Ty}
    (alike : context.Alike Eq expr declared hint) :
    context.typeOf expr declared = context.typeOf expr hint :=
  alike.typeOf (fun _ => rfl) fun sameTy => by rw [sameTy]

/-- The types that are expected of expressions may be replaced one by one. -/
theorem typesOf_congr {exprs : List Expr} {first second : Nat → Ty}
    (alike : ∀ position expr, exprs[position]? = some expr →
      context.Alike Eq expr (first position) (second position)) :
    context.typesOf first exprs = context.typesOf second exprs := by
  induction exprs generalizing first second with
  | nil => rfl
  | cons expr rest ih =>
      rw [typesOf, typesOf, (alike 0 expr rfl).typeOf_eq]
      rw [ih fun position expr found => alike (position + 1) expr found]

/-- What lowering expects of an argument is alike what is declared, if it is so for a literal
that stands alone. -/
theorem alike_argument (context : Context) (reflexive : ∀ ty, same ty ty)
    {own : Option MethodSignature} {args : List Expr}
    (literals : ∀ ty ∈ literalTypes own args,
      same (elementTy (Ty.arrayOf ty.name)) (elementTy ty))
    (position : Nat) (arg : Expr) (isArg : args[position]? = some arg) :
    context.Alike same arg (expectedArgument own args position) (argumentTy own position) := by
  rcases expectedArgument_cases own args position with
    sameTy | ⟨elem, collects, alone, trailing, expectedEq, hintEq⟩
  · rw [sameTy]
    exact .refl reflexive context arg _
  · have isLiteral := isArrayLiteral_of_literalAlone alone isArg trailing
    rw [expectedEq, hintEq]
    refine ⟨fun outside => ?_, fun _ => literals elem (by simp [literalTypes, alone, collects])⟩
    rw [isOutsideCall_of_isArrayLiteral isLiteral] at outside
    cases outside

theorem typeOf_unparen (expr : Expr) (expected : Ty) :
    context.typeOf expr.unparen expected = context.typeOf expr expected := by
  fun_induction Expr.unparen expr with
  | case1 inner ih => rw [ih, Context.typeOf]
  | case2 => rfl

/-- What lowering expects of a value that is assigned to an element is alike what is declared,
if it is so for the result of an outside call. -/
theorem alike_element (reflexive : ∀ ty, same ty ty) {array value : Expr}
    (known : ∀ name, array.unparen = .var name →
      ∃ ty, context.resolve? name = some (.declared ty) ∨ context.resolve? name = some (.field ty))
    (stored : ∀ ty ∈ context.storedTypes array value, same ty Ty.int) :
    context.Alike same value (context.elementOf array) (context.assignedElement array) := by
  unfold storedTypes at stored
  unfold assignedElement elementOf
  rw [← typeOf_unparen array]
  split
  · next name inner =>
      obtain ⟨ty, resolves | resolves⟩ := known name inner
      · rw [inner, Context.typeOf, resolves]
        exact .refl reflexive context value _
      · rw [inner, Context.typeOf, resolves]
        exact .refl reflexive context value _
  · next noName =>
      refine ⟨fun outside => stored _ ?_, fun _ => reflexive _⟩
      rw [typeOf_unparen]
      split
      · next name inner => exact (noName name inner).elim
      · rw [if_pos outside]
        exact List.mem_singleton_self _

/-- The type that lowering expects of an array to which a value is assigned makes no
difference. -/
theorem alike_array (context : Context) (reflexive : ∀ ty, same ty ty) (array : Expr) :
    context.Alike same array (Ty.arrayOf "int")
      (Ty.arrayOf (context.assignedElement array).name) := by
  unfold assignedElement
  split
  · next name inner => simp [Alike, isOutsideCall, isArrayLiteral, inner]
  · exact .refl reflexive context array _

/-- Lowering expects what is declared of arguments if it overlooks only integers. -/
theorem Heeded.alike_argument {own : Option MethodSignature} {args : List Expr}
    (heeded : Heeded (literalTypes own args)) (context : Context) (position : Nat) (arg : Expr)
    (isArg : args[position]? = some arg) :
    context.Alike Eq arg (expectedArgument own args position) (argumentTy own position) := by
  refine context.alike_argument (fun _ => rfl) (fun ty among => ?_) position arg isArg
  rw [heeded ty among]
  rfl

end Context

end ClassCompiler.Semantics
