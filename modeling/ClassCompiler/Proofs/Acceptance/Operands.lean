import ClassCompiler.Proofs.Acceptance.WellFormed

/-!
# Operands of well-formed programs

In a well-formed program no operand has the type `void`, and the result of every call
has a descriptor. This follows along the structure of expressions and statements from
the declarations and from the conditions on operations.
-/

namespace ClassCompiler.Semantics

open StackCode (Describable)
open ThreeAddress (literalElement varargElement?)

variable {context : Context}

/-! ## Operands -/

/-- The types of the values that an operation takes. -/
def Occurrence.operandTys : Occurrence → List Ty
  | .operator _ left right _ => [left, right]
  | .element base offset => [base, offset]
  | .negation ty | .length ty | .newArray _ ty | .condition ty | .assign _ ty
  | .assignField _ _ ty => [ty]
  | .array _ tys => tys
  | .call _ (.onObject ty) _ passed _ _ => ty :: passed
  | .call _ (.onClass _) _ passed _ _ => passed
  | .assignElement base offset value => [base, offset, value]
  | .returns value => value.toList
  | .self | .reference _ _ | .newObject _ | .invalidTarget => []

/-- The result type of a call, or the type of an array that is made of values. -/
def Occurrence.resultTy? : Occurrence → Option Ty
  | .call _ _ _ _ result _ => some result
  | .array elem _ => some (Ty.arrayOf elem.name)
  | _ => none

/-- Operations that take values and have a result that can be described. -/
structure Occurrence.IsProper (occurrence : Occurrence) : Prop where
  operands : ∀ ty ∈ occurrence.operandTys, ty.name ≠ "void"
  result : ∀ ty ∈ occurrence.resultTy?, Describable ty

theorem Occurrence.IsProper.of_nothing {occurrence : Occurrence}
    (noOperands : occurrence.operandTys = []) (noResult : occurrence.resultTy? = none) :
    occurrence.IsProper where
  operands := by
    rw [noOperands]
    exact List.forall_mem_nil _
  result := by
    rw [noResult]
    exact nofun

/-- An array of collected arguments has a descriptor and elements that are values. -/
theorem isProper_array {elem : Ty} {tys : List Ty} (nameNe : elem.name ≠ "void")
    (values : ∀ ty ∈ tys, ty.name ≠ "void") : (Occurrence.array elem tys).IsProper where
  operands := values
  result := by
    rintro _ ⟨rfl⟩
    exact describable_of_name_ne nameNe

theorem varargElement?_of_collected? {own : Option MethodSignature} {tys : List Ty} {fixed : Nat}
    {elem : Ty} (collects : collected? own tys = some (fixed, elem)) :
    varargElement? own = some elem := by
  unfold collected? at collects
  rw [collectedElement?_eq] at collects
  split at collects
  · cases collects
  · next found elemEq =>
      rw [elemEq]
      split at collects
      · split at collects
        · cases collects
        · cases collects
          rfl
      · cases collects
        rfl

section

variable (types : HasProperTypes context.table)
  (known : context.signature ∈ context.table.methods)

include types

theorem name_ne_of_passedTys {own : Option MethodSignature} {tys : List Ty}
    (declared : ∀ signature ∈ own, signature ∈ context.table.methods)
    (values : ∀ ty ∈ tys, ty.name ≠ "void") : ∀ ty ∈ passedTys own tys, ty.name ≠ "void" := by
  unfold passedTys
  split
  · next fixed elem collects =>
      have elemNe :=
        types.name_ne_of_varargElement? declared (varargElement?_of_collected? collects)
      intro ty member
      rcases List.mem_append.mp member with kept | packed
      · exact values ty (List.mem_of_mem_take kept)
      · rw [List.mem_singleton.mp packed]
        exact elemNe
  · exact values

theorem isProper_of_mem_collectedArray {own : Option MethodSignature} {tys : List Ty}
    (declared : ∀ signature ∈ own, signature ∈ context.table.methods)
    (values : ∀ ty ∈ tys, ty.name ≠ "void") :
    AllOf Occurrence.IsProper (collectedArray own tys) := by
  unfold collectedArray
  split
  · next fixed elem collects =>
      have elemNe :=
        types.name_ne_of_varargElement? declared (varargElement?_of_collected? collects)
      rw [AllOf, List.forall_mem_singleton]
      exact isProper_array elemNe fun ty member => values ty (List.mem_of_mem_drop member)
  · exact List.forall_mem_nil _

/-- The result of a call that is used is a value. -/
theorem name_ne_of_resultTy {own : Option MethodSignature} {target : Target} {name : String}
    {passed : List Ty} {expected : Ty} {dest : Dest} (used : dest ≠ .dropped)
    (declared : ∀ signature ∈ own, signature ∈ context.table.methods)
    (describable : Describable expected)
    (formed : (Occurrence.call own target name passed (Context.resultTy own expected)
      dest).IsWellFormed) : (Context.resultTy own expected).name ≠ "void" :=
  name_ne_of_describable (types.describable_resultTy declared describable) (formed.2 used)

include known

/-- A well-formed expression that is used is a value. -/
theorem name_ne_of_typeOf : (expr : Expr) → {expected : Ty} → {dest : Dest} → dest ≠ .dropped →
    Describable expected → AllOf Occurrence.IsWellFormed (context.occurrences expr expected dest) →
    (context.typeOf expr expected).name ≠ "void"
  | .int _, _, _, _, _, _ | .bool _, _, _, _, _, _ | .string _, _, _, _, _, _
  | .not _, _, _, _, _, _ | .length _, _, _, _, _, _ => by
      rw [Context.typeOf]
      decide
  | .self, _, _, _, _, _ => by
      rw [Context.typeOf]
      exact types.className_ne
  | .paren inner, _, _, used, describable, formed => by
      rw [Context.occurrences] at formed
      rw [Context.typeOf]
      exact name_ne_of_typeOf inner used describable formed
  | .var name, _, _, _, _, formed => by
      rw [Context.occurrences, AllOf, List.forall_mem_singleton] at formed
      rw [Context.typeOf]
      split
      · next resolves => exact types.name_ne_of_resolve known (.inl resolves)
      · next resolves => exact types.name_ne_of_resolve known (.inr resolves)
      · next notDeclared notField =>
          obtain ⟨resolved, notClass⟩ := formed
          cases binding : context.resolve? name with
          | none => exact absurd binding resolved
          | some found =>
              cases found with
              | declared ty => exact absurd binding (notDeclared ty)
              | field ty => exact absurd binding (notField ty)
              | className => exact absurd binding notClass
  | .binary op _ _, _, _, _, _, _ => by
      rw [Context.typeOf]
      cases op <;> simp [BinaryOp.resultTy, Ty.int, Ty.boolean, Ty.named]
  | .index array _, _, _, _, _, formed => by
      rw [Context.occurrences, AllOf, List.forall_mem_append, List.forall_mem_append] at formed
      rw [Context.typeOf, Ty.element_name]
      exact name_ne_of_typeOf array temporary_ne_dropped (by decide) formed.1.1
  | .newArray _ _, _, _, _, _, formed => by
      rw [Context.occurrences, AllOf, List.forall_mem_append, List.forall_mem_singleton] at formed
      rw [Context.typeOf]
      exact formed.2
  | .arrayInit _, _, _, _, describable, _ => by
      rw [Context.typeOf]
      exact name_ne_of_literalElement describable
  | .newObject _, _, _, _, _, formed => by
      rw [Context.occurrences, AllOf, List.forall_mem_singleton] at formed
      rw [Context.typeOf]
      rintro rfl
      exact formed (by decide)
  | .selfCall _ _, _, _, used, describable, formed => by
      rw [Context.occurrences, AllOf, List.forall_mem_append, List.forall_mem_singleton] at formed
      rw [Context.typeOf]
      exact name_ne_of_resultTy types used mem_methods_of_method? describable formed.2
  | .call receiver _ _, _, _, used, describable, formed => by
      rw [Context.typeOf, Context.callee?]
      rw [Context.occurrences] at formed
      cases names : context.classNamed? receiver with
      | some className =>
          simp only [names, AllOf, List.forall_mem_append, List.forall_mem_singleton] at formed
          exact name_ne_of_resultTy types used mem_methods_of_staticCallee? describable
            formed.2
      | none =>
          simp only [names, AllOf, List.forall_mem_append, List.forall_mem_singleton] at formed
          exact name_ne_of_resultTy types used mem_methods_of_instanceCallee? describable
            formed.2

theorem name_ne_of_typesOf : (exprs : List Expr) → {expectedAt : Nat → Ty} →
    (∀ position, Describable (expectedAt position)) →
    AllOf Occurrence.IsWellFormed (context.occurrencesAll expectedAt exprs) →
    ∀ ty ∈ context.typesOf expectedAt exprs, ty.name ≠ "void"
  | [], _, _, _ => nofun
  | expr :: rest, _, describable, formed => by
      rw [Context.occurrencesAll, AllOf, List.forall_mem_append] at formed
      rw [Context.typesOf, List.forall_mem_cons]
      exact ⟨name_ne_of_typeOf types known expr temporary_ne_dropped (describable 0) formed.1,
        name_ne_of_typesOf rest (fun position => describable (position + 1)) formed.2⟩

omit known in
/-- A well-formed call takes values. -/
theorem isProper_of_call {own : Option MethodSignature} {target : Target} {name : String}
    {tys : List Ty} {expected : Ty} {dest : Dest}
    (declared : ∀ signature ∈ own, signature ∈ context.table.methods)
    (describable : Describable expected) (values : ∀ ty ∈ tys, ty.name ≠ "void")
    (formed : (Occurrence.call own target name (passedTys own tys)
      (Context.resultTy own expected) dest).IsWellFormed) :
    AllOf Occurrence.IsProper (collectedArray own tys ++
      [.call own target name (passedTys own tys) (Context.resultTy own expected) dest]) := by
  rw [AllOf, List.forall_mem_append, List.forall_mem_singleton]
  have passed := name_ne_of_passedTys types declared values
  refine ⟨isProper_of_mem_collectedArray types declared values, ?_, ?_⟩
  · cases target with
    | onClass className => exact passed
    | onObject ty =>
        rw [Occurrence.operandTys, List.forall_mem_cons]
        refine ⟨?_, passed⟩
        intro isVoid
        apply formed.1.2
        rw [isVoid]
        decide
  · rintro ty ⟨rfl⟩
    exact types.describable_resultTy declared describable

end

mutual

/-- In a well-formed expression every operation takes values. -/
theorem isProper_of_occurrences (types : HasProperTypes context.table)
    (known : context.signature ∈ context.table.methods) :
    (expr : Expr) → {expected : Ty} → {dest : Dest} →
    Describable expected → AllOf Occurrence.IsWellFormed (context.occurrences expr expected dest) →
    AllOf Occurrence.IsProper (context.occurrences expr expected dest)
  | .int _, _, _, _, _ | .bool _, _, _, _, _ | .string _, _, _, _, _ => by
      rw [Context.occurrences]
      exact List.forall_mem_nil _
  | .self, _, _, _, _ | .var _, _, _, _, _ | .newObject _, _, _, _, _ => by
      rw [Context.occurrences, AllOf, List.forall_mem_singleton]
      exact .of_nothing rfl rfl
  | .paren inner, _, _, describable, formed => by
      rw [Context.occurrences] at formed ⊢
      exact isProper_of_occurrences types known inner describable formed
  | .binary op left right, _, _, _, formed => by
      have expects := describable_operandTy op
      simp only [Context.occurrences, AllOf, List.forall_mem_append, List.forall_mem_singleton]
        at formed ⊢
      have leftNe := name_ne_of_typeOf types known left temporary_ne_dropped expects formed.1.1
      have rightNe := name_ne_of_typeOf types known right temporary_ne_dropped expects formed.1.2
      exact ⟨⟨isProper_of_occurrences types known left expects formed.1.1,
        isProper_of_occurrences types known right expects formed.1.2⟩,
        by simp [Occurrence.operandTys, *], nofun⟩
  | .not operand, _, _, _, formed => by
      have expects : Describable Ty.boolean := by decide
      simp only [Context.occurrences, AllOf, List.forall_mem_append, List.forall_mem_singleton]
        at formed ⊢
      have operandNe := name_ne_of_typeOf types known operand temporary_ne_dropped expects formed.1
      exact ⟨isProper_of_occurrences types known operand expects formed.1,
        by simp [Occurrence.operandTys, *], nofun⟩
  | .index array position, _, _, _, formed => by
      have expects : Describable (Ty.arrayOf "int") := by decide
      have expectsInt : Describable Ty.int := by decide
      simp only [Context.occurrences, AllOf, List.forall_mem_append, List.forall_mem_singleton]
        at formed ⊢
      have arrayNe := name_ne_of_typeOf types known array temporary_ne_dropped expects formed.1.1
      have positionNe :=
        name_ne_of_typeOf types known position temporary_ne_dropped expectsInt formed.1.2
      exact ⟨⟨isProper_of_occurrences types known array expects formed.1.1,
        isProper_of_occurrences types known position expectsInt formed.1.2⟩,
        by simp [Occurrence.operandTys, *], nofun⟩
  | .length array, _, _, _, formed => by
      have expects : Describable (Ty.arrayOf "int") := by decide
      simp only [Context.occurrences, AllOf, List.forall_mem_append, List.forall_mem_singleton]
        at formed ⊢
      have arrayNe := name_ne_of_typeOf types known array temporary_ne_dropped expects formed.1
      exact ⟨isProper_of_occurrences types known array expects formed.1,
        by simp [Occurrence.operandTys, *], nofun⟩
  | .newArray _ size, _, _, _, formed => by
      have expects : Describable Ty.int := by decide
      simp only [Context.occurrences, AllOf, List.forall_mem_append, List.forall_mem_singleton]
        at formed ⊢
      have sizeNe := name_ne_of_typeOf types known size temporary_ne_dropped expects formed.1
      exact ⟨isProper_of_occurrences types known size expects formed.1,
        by simp [Occurrence.operandTys, *], nofun⟩
  | .arrayInit elements, expected, _, describable, formed => by
      have elemNe := name_ne_of_literalElement describable
      have expects (_ : Nat) : Describable (literalElement expected) :=
        describable_of_name_ne elemNe
      simp only [Context.occurrences, AllOf, List.forall_mem_append, List.forall_mem_singleton]
        at formed ⊢
      exact ⟨isProper_of_occurrencesAll types known elements expects formed.1,
        isProper_array elemNe (name_ne_of_typesOf types known elements expects formed.1)⟩
  | .selfCall name args, _, _, describable, formed => by
      have declared : ∀ signature ∈ context.table.method? name, signature ∈ context.table.methods :=
        mem_methods_of_method?
      have expects (position : Nat) :=
        describable_of_name_ne (types.name_ne_of_argumentTy declared position)
      rw [Context.occurrences, List.append_assoc, AllOf, List.forall_mem_append] at formed ⊢
      obtain ⟨formedArgs, formedCall⟩ := formed
      rw [List.forall_mem_append, List.forall_mem_singleton] at formedCall
      exact ⟨isProper_of_occurrencesAll types known args expects formedArgs,
        isProper_of_call types declared describable
          (name_ne_of_typesOf types known args expects formedArgs) formedCall.2⟩
  | .call receiver name args, _, _, describable, formed => by
      rw [Context.occurrences] at formed ⊢
      cases names : context.classNamed? receiver with
      | some className =>
          have declared : ∀ signature ∈ context.staticCallee? className name,
              signature ∈ context.table.methods := mem_methods_of_staticCallee?
          have expects (position : Nat) :=
            describable_of_name_ne (types.name_ne_of_argumentTy declared position)
          rw [names] at formed
          simp only at formed ⊢
          rw [List.append_assoc, AllOf, List.forall_mem_append] at formed ⊢
          obtain ⟨formedArgs, formedCall⟩ := formed
          rw [List.forall_mem_append, List.forall_mem_singleton] at formedCall
          exact ⟨isProper_of_occurrencesAll types known args expects formedArgs,
            isProper_of_call types declared describable
              (name_ne_of_typesOf types known args expects formedArgs) formedCall.2⟩
      | none =>
          have declared : ∀ signature ∈ context.instanceCallee?
              (context.typeOf receiver context.table.classTy) name,
              signature ∈ context.table.methods := mem_methods_of_instanceCallee?
          have expects (position : Nat) :=
            describable_of_name_ne (types.name_ne_of_argumentTy declared position)
          rw [names] at formed
          simp only at formed ⊢
          rw [List.append_assoc, AllOf, List.forall_mem_append, List.forall_mem_append]
            at formed ⊢
          obtain ⟨⟨formedReceiver, formedArgs⟩, formedCall⟩ := formed
          rw [List.forall_mem_append, List.forall_mem_singleton] at formedCall
          exact ⟨⟨isProper_of_occurrences types known receiver nofun formedReceiver,
            isProper_of_occurrencesAll types known args expects formedArgs⟩,
            isProper_of_call types declared describable
              (name_ne_of_typesOf types known args expects formedArgs) formedCall.2⟩

theorem isProper_of_occurrencesAll (types : HasProperTypes context.table)
    (known : context.signature ∈ context.table.methods) :
    (exprs : List Expr) → {expectedAt : Nat → Ty} →
    (∀ position, Describable (expectedAt position)) →
    AllOf Occurrence.IsWellFormed (context.occurrencesAll expectedAt exprs) →
    AllOf Occurrence.IsProper (context.occurrencesAll expectedAt exprs)
  | [], _, _, _ => List.forall_mem_nil _
  | expr :: rest, _, describable, formed => by
      rw [Context.occurrencesAll, AllOf, List.forall_mem_append] at formed ⊢
      exact ⟨isProper_of_occurrences types known expr (describable 0) formed.1,
        isProper_of_occurrencesAll types known rest (fun position => describable (position + 1))
          formed.2⟩

end

section

variable (types : HasProperTypes context.table)
  (known : context.signature ∈ context.table.methods)

include types known

/-- An expression whose value is taken by one more operation. -/
theorem isProper_concat {expr : Expr} {expected : Ty} {occurrence : Occurrence}
    (describable : Describable expected) (operandsEq : occurrence.operandTys =
      [context.typeOf expr expected]) (noResult : occurrence.resultTy? = none)
    (formed : AllOf Occurrence.IsWellFormed (context.occurrences expr expected .temporary)) :
    AllOf Occurrence.IsProper (context.occurrences expr expected .temporary ++ [occurrence]) := by
  rw [AllOf, List.forall_mem_append, List.forall_mem_singleton]
  refine ⟨isProper_of_occurrences types known expr describable formed, ?_, ?_⟩
  · rw [operandsEq, List.forall_mem_singleton]
    exact name_ne_of_typeOf types known expr temporary_ne_dropped describable formed
  · rw [noResult]
    exact nofun

theorem isProper_of_assignOccurrences {target value : Expr}
    (formed : AllOf Occurrence.IsWellFormed (context.assignOccurrences target value)) :
    AllOf Occurrence.IsProper (context.assignOccurrences target value) := by
  unfold Context.assignOccurrences at formed ⊢
  cases inner : target.unparen with
  | var name =>
      rw [inner] at formed
      simp only at formed ⊢
      cases resolves : context.resolve? name with
      | none =>
          rw [resolves] at formed
          exact (formed _ (List.mem_singleton_self _)).elim
      | some binding =>
          rw [resolves] at formed
          cases binding with
          | className => exact (formed _ (List.mem_singleton_self _)).elim
          | field ty =>
              have describable :=
                describable_of_name_ne (types.name_ne_of_resolve known (.inr resolves))
              simp only [AllOf, List.forall_mem_append] at formed
              exact isProper_concat types known describable rfl rfl formed.1
          | declared ty =>
              have describable :=
                describable_of_name_ne (types.name_ne_of_resolve known (.inl resolves))
              simp only [Context.variableOccurrences] at formed ⊢
              split
              · next written =>
                  rw [if_pos written] at formed
                  exact isProper_of_occurrences types known value describable formed
              · next apart =>
                  rw [if_neg apart, AllOf, List.forall_mem_append] at formed
                  exact isProper_concat types known describable rfl rfl formed.1
  | index array position =>
      have elemNe := types.name_ne_of_assignedElement known array
      have describable := describable_of_name_ne elemNe
      have describableArray : Describable (Ty.arrayOf (context.assignedElement array).name) :=
        describable_of_name_ne elemNe
      have describableInt : Describable Ty.int := by decide
      rw [inner] at formed
      simp only [AllOf, List.forall_mem_append, List.forall_mem_singleton] at formed ⊢
      obtain ⟨⟨⟨formedValue, formedArray⟩, formedPosition⟩, _⟩ := formed
      have valueNe :=
        name_ne_of_typeOf types known value temporary_ne_dropped describable formedValue
      have arrayNe :=
        name_ne_of_typeOf types known array temporary_ne_dropped describableArray formedArray
      have positionNe :=
        name_ne_of_typeOf types known position temporary_ne_dropped describableInt formedPosition
      exact ⟨⟨⟨isProper_of_occurrences types known value describable formedValue,
        isProper_of_occurrences types known array describableArray formedArray⟩,
        isProper_of_occurrences types known position describableInt formedPosition⟩,
        by simp [Occurrence.operandTys, *], nofun⟩
  | _ =>
      rw [inner] at formed
      exact (formed _ (List.mem_singleton_self _)).elim

theorem isProper_of_returnOccurrences {value : Option Expr}
    (formed : AllOf Occurrence.IsWellFormed (context.returnOccurrences value)) :
    AllOf Occurrence.IsProper (context.returnOccurrences value) := by
  have nothing : AllOf Occurrence.IsProper [.returns none] := by
    rw [AllOf, List.forall_mem_singleton]
    exact .of_nothing rfl rfl
  cases value with
  | none => exact nothing
  | some value =>
      rw [Context.returnOccurrences] at formed ⊢
      split
      · exact nothing
      · next notMain =>
          rw [if_neg notMain, AllOf, List.forall_mem_append] at formed
          exact isProper_concat types known (types.results _ known) rfl rfl formed.1

end

mutual

/-- In a well-formed statement every operation takes values. -/
theorem isProper_of_stmtOccurrences (types : HasProperTypes context.table)
    (known : context.signature ∈ context.table.methods) :
    (stmt : Stmt) →
    AllOf Occurrence.IsWellFormed (context.stmtOccurrences stmt) →
    AllOf Occurrence.IsProper (context.stmtOccurrences stmt)
  | .assign target value, formed => by
      rw [Context.stmtOccurrences] at formed ⊢
      exact isProper_of_assignOccurrences types known formed
  | .expr expr, formed => by
      rw [Context.stmtOccurrences] at formed ⊢
      exact isProper_of_occurrences types known expr (by decide) formed
  | .ret value, formed => by
      rw [Context.stmtOccurrences] at formed ⊢
      exact isProper_of_returnOccurrences types known formed
  | .ifElse cond thenBranch elseBranch, formed => by
      rw [Context.stmtOccurrences, AllOf, List.forall_mem_append, List.forall_mem_append]
        at formed ⊢
      obtain ⟨⟨formedCond, formedElse⟩, formedThen⟩ := formed
      rw [List.forall_mem_append] at formedCond
      exact ⟨⟨isProper_concat types known (by decide) rfl rfl formedCond.1,
        isProper_of_stmtOccurrences types known elseBranch formedElse⟩,
        isProper_of_stmtOccurrences types known thenBranch formedThen⟩
  | .whileLoop cond body, formed => by
      rw [Context.stmtOccurrences, List.append_cons, AllOf, List.forall_mem_append,
        List.forall_mem_append] at formed ⊢
      obtain ⟨⟨formedCond, _⟩, formedBody⟩ := formed
      rw [List.forall_mem_append] at formedCond
      refine ⟨⟨isProper_concat types known (by decide) rfl rfl formedCond.1, ?_⟩,
        isProper_of_stmtOccurrences types known body formedBody⟩
      rw [List.forall_mem_singleton]
      exact ⟨List.forall_mem_singleton.mpr (by decide), nofun⟩
  | .block body, formed => by
      rw [Context.stmtOccurrences] at formed ⊢
      exact isProper_of_bodyOccurrences types known body formed

/-- In a well-formed body every operation takes values. -/
theorem isProper_of_bodyOccurrences (types : HasProperTypes context.table)
    (known : context.signature ∈ context.table.methods) :
    (body : List Stmt) →
    AllOf Occurrence.IsWellFormed (context.bodyOccurrences body) →
    AllOf Occurrence.IsProper (context.bodyOccurrences body)
  | [], _ => List.forall_mem_nil _
  | stmt :: rest, formed => by
      rw [Context.bodyOccurrences, AllOf, List.forall_mem_append] at formed ⊢
      exact ⟨isProper_of_stmtOccurrences types known stmt formed.1,
        isProper_of_bodyOccurrences types known rest formed.2⟩

end

end ClassCompiler.Semantics
