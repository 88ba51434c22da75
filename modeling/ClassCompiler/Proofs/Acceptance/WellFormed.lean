import ClassCompiler.Proofs.Emission.Code
import ClassCompiler.Proofs.Semantics.Occurrences
import Mathlib.Algebra.GroupWithZero.Nat

/-!
# Well-formed programs

A program is well formed if its declarations have types of values, its methods have
distinct variables and not too many of them, and each operation that occurs in it can be
carried out: names stand for variables, calls whose result is used have one, and calls
on objects find one.
-/

namespace ClassCompiler.Semantics

open StackCode (Describable HasMembers IsParameter maxLocals)
open ThreeAddress (Binding argumentTy calleeParams literalElement varargElement?)

/-! ## Conditions -/

/-- The declarations of a class that is not named like a built-in type, in which nothing
but a method is `void` and nothing is an array of `void`. -/
structure HasProperTypes (table : SymbolTable) : Prop where
  className : table.className ∉ valueTypeNames
  fields : ∀ field ∈ table.fields, field.ty.name ≠ "void"
  symbols : ∀ signature ∈ table.methods, ∀ symbol ∈ signature.params ++ signature.locals,
    symbol.ty.name ≠ "void"
  results : ∀ signature ∈ table.methods, Describable signature.returnTy

/-- The variables of a method, with the current object and a number of temporaries, have
distinct names and are few enough to have slots. -/
structure HasDistinctVariables (signature : MethodSignature) (temps : Nat) : Prop where
  distinct : ((signature.params ++ signature.locals).map Symbol.name).Nodup
  notSelf : signature.isStatic = false →
    "this" ∉ (signature.params ++ signature.locals).map Symbol.name
  fits : (if signature.isStatic then 0 else 1) +
    (signature.params ++ signature.locals).length + temps ≤ maxLocals

/-- Targets that can receive a call: classes, and objects. -/
def Target.IsWellFormed : Target → Prop
  | .onClass _ => True
  | .onObject ty => ty.isArray = false ∧ ty.name ∉ valueTypeNames

/-- Operations that can be carried out. A name stands for a variable or a field, arrays
are not of `void` and not too long, objects have a class, and a call whose result is used
has a result. -/
def Occurrence.IsWellFormed : Occurrence → Prop
  | .reference _ binding => binding ≠ none ∧ binding ≠ some .className
  | .newArray elem _ => elem.name ≠ "void"
  | .array _ elements => elements.length < 2147483648
  | .newObject className => className ∉ valueTypeNames
  | .call _ target _ _ result dest =>
      target.IsWellFormed ∧ (dest ≠ .dropped → result.isVoid = false)
  | .invalidTarget => False
  | _ => True

instance (target : Target) : Decidable target.IsWellFormed := by
  cases target <;> unfold Target.IsWellFormed <;> infer_instance

instance (occurrence : Occurrence) : Decidable occurrence.IsWellFormed := by
  cases occurrence <;> unfold Occurrence.IsWellFormed <;> infer_instance

theorem temporary_ne_dropped : Dest.temporary ≠ .dropped := nofun

/-- The temporaries that the statements of a body take. -/
def Context.tempCount (context : Context) (body : List Stmt) : Nat :=
  ((context.bodyOccurrences body).map Occurrence.tempCount).sum

/-- A declared method is well formed if its signature is known, its variables have slots
and every operation in it can be carried out. -/
def IsWellFormedMethod (table : SymbolTable) (decl : MethodDecl) : Prop :=
  ∃ signature, table.method? decl.name = some signature ∧
    HasDistinctVariables signature ((Context.mk table signature).tempCount decl.body) ∧
    AllOf Occurrence.IsWellFormed ((Context.mk table signature).bodyOccurrences decl.body)

/-- Programs whose declarations and methods are well formed. -/
structure IsWellFormed (table : SymbolTable) (program : Program) : Prop where
  types : HasProperTypes table
  methods : ∀ decl ∈ program.decl.methods, IsWellFormedMethod table decl

/-! ## Types -/

theorem describable_of_name_ne {ty : Ty} (nameNe : ty.name ≠ "void") : Describable ty :=
  fun _ => nameNe

theorem isParameter_of_name_ne {ty : Ty} (nameNe : ty.name ≠ "void") : IsParameter ty :=
  ⟨isVoid_of_name_ne nameNe, describable_of_name_ne nameNe⟩

/-- A type that has a descriptor and is not `void` is not made of `void`. -/
theorem name_ne_of_describable {ty : Ty} (describable : Describable ty)
    (notVoid : ty.isVoid = false) : ty.name ≠ "void" := by
  obtain ⟨name, shape⟩ := ty
  cases shape with
  | single =>
      rintro rfl
      exact absurd notVoid (by decide)
  | array | vararg => exact describable rfl

theorem hasMembers_of_name {ty : Ty} (single : ty.isArray = false)
    (isClass : ty.name ∉ valueTypeNames) : HasMembers ty := by
  refine ⟨single, fun isPrimitive => ?_⟩
  simp only [valueTypeNames, List.mem_cons, List.not_mem_nil, or_false, not_or] at isClass
  simpa [Ty.isPrimitive, isClass] using isPrimitive

theorem name_ne_of_literalElement {expected : Ty} (describable : Describable expected) :
    (literalElement expected).name ≠ "void" := by
  unfold literalElement
  split
  · next isArray => exact describable isArray
  · decide

theorem describable_operandTy (op : BinaryOp) : Describable op.operandTy := by
  apply describable_of_name_ne
  cases op <;> simp [BinaryOp.operandTy, Ty.int, Ty.boolean, Ty.named]

variable {context : Context}

namespace HasProperTypes

variable (types : HasProperTypes context.table)

include types

theorem className_ne : context.table.className ≠ "void" := by
  intro isVoid
  apply types.className
  rw [isVoid]
  decide

/-- A name that stands for a variable or a field has the type of values. -/
theorem name_ne_of_resolve (known : context.signature ∈ context.table.methods) {name : String}
    {ty : Ty} (resolves : context.resolve? name = some (.declared ty) ∨
      context.resolve? name = some (.field ty)) : ty.name ≠ "void" := by
  rcases resolves with declared | field
  · obtain ⟨symbol, member, _, rfl⟩ := Context.exists_symbol_of_resolve declared
    exact types.symbols _ known symbol member
  · obtain ⟨_, symbol, found, rfl⟩ := Context.exists_field_of_resolve field
    exact types.fields symbol (List.mem_of_find?_eq_some found)

theorem name_ne_of_assignedElement (known : context.signature ∈ context.table.methods)
    (array : Expr) : (context.assignedElement array).name ≠ "void" := by
  unfold Context.assignedElement
  split
  · next name _ =>
      split
      · next resolves =>
          rw [Ty.element_name]
          exact types.name_ne_of_resolve known (.inl resolves)
      · next resolves =>
          rw [Ty.element_name]
          exact types.name_ne_of_resolve known (.inr resolves)
      · decide
  · decide

theorem name_ne_of_calleeParams {own : Option MethodSignature}
    (declared : ∀ signature ∈ own, signature ∈ context.table.methods) {param : Symbol}
    (member : param ∈ calleeParams own) : param.ty.name ≠ "void" := by
  cases own with
  | none => cases member
  | some signature =>
      exact types.symbols signature (declared signature rfl) param
        (List.mem_append_left _ member)

/-- Arguments are collected as values. -/
theorem name_ne_of_varargElement? {own : Option MethodSignature}
    (declared : ∀ signature ∈ own, signature ∈ context.table.methods) {elem : Ty}
    (collects : varargElement? own = some elem) : elem.name ≠ "void" := by
  cases own with
  | none => cases collects
  | some signature =>
      rw [varargElement?] at collects
      split at collects
      · obtain ⟨param, last, rfl⟩ := Option.map_eq_some_iff.mp collects
        exact types.name_ne_of_calleeParams declared (List.mem_of_getLast? last)
      · cases collects

/-- An argument is expected to have the type of values. -/
theorem name_ne_of_argumentTy {own : Option MethodSignature}
    (declared : ∀ signature ∈ own, signature ∈ context.table.methods) (position : Nat) :
    (argumentTy own position).name ≠ "void" := by
  have fixed (param : Symbol) (found : (calleeParams own)[position]? = some param) :
      param.ty.name ≠ "void" :=
    types.name_ne_of_calleeParams declared (List.mem_of_getElem? found)
  have notDeclared : Ty.int.name ≠ "void" := by decide
  unfold argumentTy
  cases collects : varargElement? own with
  | none =>
      cases found : (calleeParams own)[position]? with
      | none => exact notDeclared
      | some param => exact fixed param found
  | some elem =>
      by_cases isTrailing : (calleeParams own).length - 1 ≤ position
      · simpa only [isTrailing, if_true] using types.name_ne_of_varargElement? declared collects
      · simp only [isTrailing, if_false]
        cases found : (calleeParams own)[position]? with
        | none => exact notDeclared
        | some param => exact fixed param found

theorem describable_resultTy {own : Option MethodSignature}
    (declared : ∀ signature ∈ own, signature ∈ context.table.methods) {expected : Ty}
    (describable : Describable expected) : Describable (Context.resultTy own expected) := by
  cases own with
  | none => exact describable
  | some signature => exact types.results signature (declared signature rfl)

end HasProperTypes

theorem mem_methods_of_method? {table : SymbolTable} {name : String} :
    ∀ signature ∈ table.method? name, signature ∈ table.methods :=
  fun _ found => List.mem_of_find?_eq_some found

theorem mem_methods_of_staticCallee? {className name : String} :
    ∀ signature ∈ context.staticCallee? className name, signature ∈ context.table.methods := by
  unfold Context.staticCallee?
  split
  · exact mem_methods_of_method?
  · exact nofun

theorem mem_methods_of_instanceCallee? {ty : Ty} {name : String} :
    ∀ signature ∈ context.instanceCallee? ty name, signature ∈ context.table.methods := by
  unfold Context.instanceCallee?
  split
  · exact mem_methods_of_method?
  · exact nofun

end ClassCompiler.Semantics
