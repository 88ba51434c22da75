import ClassCompiler.Proofs.Emission.Code
import ClassCompiler.Proofs.Lowering.Programs
import ClassCompiler.Proofs.Semantics.Coverage

/-!
# String literals of lowered code

A string literal of the source becomes a constant operand of one instruction of the lowered
code, unless its value is dropped. Three kinds of literals are: a literal that is a
statement, the literals in what the entry point returns, and a literal that receives a call
to a static method of the class, which takes a class called `String`.
-/

namespace ClassCompiler

/-! ## Literals of the source -/

/-- Whether an expression is a string literal. -/
def Expr.isString (expr : Expr) : Bool :=
  match expr.unparen with
  | .string _ => true
  | _ => false

/-- Which string literals are passed over: receivers of calls by the name of the method,
statements, and those in returned values. -/
structure Omission where
  receiver : String → Bool
  statement : Bool
  returned : Bool

/-- No literal is passed over. -/
def Omission.nothing : Omission := ⟨fun _ => false, false, false⟩

mutual

/-- The string literals of an expression, but for receivers of certain calls. -/
def Expr.strings (omits : String → Bool) : Expr → List String
  | .int _ | .bool _ | .self | .var _ | .newObject _ => []
  | .string value => [value]
  | .paren inner => inner.strings omits
  | .not operand => operand.strings omits
  | .length array => array.strings omits
  | .newArray _ size => size.strings omits
  | .binary _ left right => left.strings omits ++ right.strings omits
  | .index array position => array.strings omits ++ position.strings omits
  | .arrayInit elements => stringsAll omits elements
  | .selfCall _ args => stringsAll omits args
  | .call receiver name args =>
      (if receiver.isString && omits name then [] else receiver.strings omits) ++
        stringsAll omits args

/-- The string literals of expressions. -/
def Expr.stringsAll (omits : String → Bool) : List Expr → List String
  | [] => []
  | expr :: rest => expr.strings omits ++ stringsAll omits rest

end

mutual

/-- The string literals of a statement that are not passed over. -/
def Stmt.strings (omission : Omission) : Stmt → List String
  | .assign target value => value.strings omission.receiver ++ target.strings omission.receiver
  | .expr value =>
      if value.isString && omission.statement then [] else value.strings omission.receiver
  | .ret none => []
  | .ret (some value) => if omission.returned then [] else value.strings omission.receiver
  | .ifElse cond thenBranch elseBranch =>
      cond.strings omission.receiver ++ elseBranch.strings omission ++ thenBranch.strings omission
  | .whileLoop cond body => cond.strings omission.receiver ++ body.strings omission
  | .block body => stringsAll omission body

/-- The string literals of statements that are not passed over. -/
def Stmt.stringsAll (omission : Omission) : List Stmt → List String
  | [] => []
  | stmt :: rest => stmt.strings omission ++ stringsAll omission rest

end

/-- Calls that a literal receives without being used: the method is a static one of the class,
and the class is that of the literal. -/
def SymbolTable.dropsReceiver (table : SymbolTable) (name : String) : Bool :=
  table.className == "String" && (table.method? name).any MethodSignature.isStatic

/-- The literals of a method whose values are dropped. -/
def SymbolTable.droppedIn (table : SymbolTable) (decl : MethodDecl) : Omission where
  receiver := table.dropsReceiver
  statement := true
  returned := (table.method? decl.name).any MethodSignature.isMain

/-- The string literals of a program. -/
def Program.strings (program : Program) : List String :=
  program.decl.methods.flatMap fun decl => Stmt.stringsAll .nothing decl.body

/-- The string literals of a program whose values are not dropped. -/
def Program.usedStrings (table : SymbolTable) (program : Program) : List String :=
  program.decl.methods.flatMap fun decl => Stmt.stringsAll (table.droppedIn decl) decl.body

theorem Expr.strings_unparen (omits : String → Bool) (expr : Expr) :
    expr.unparen.strings omits = expr.strings omits := by
  fun_induction Expr.unparen expr with
  | case1 inner ih => rw [ih, strings]
  | case2 => rfl

theorem Expr.strings_of_unparen_eq {omits : String → Bool} {expr other : Expr}
    (same : expr.unparen = other) : expr.strings omits = other.strings omits := by
  rw [← same, strings_unparen]

theorem Expr.isString_unparen (expr : Expr) : expr.unparen.isString = expr.isString := by
  rw [isString, unparen_unparen, isString]

namespace ThreeAddress

open LoweringState StackCode
open Semantics (Context)

/-! ## Constants of code -/

/-- The string constants of an operand. -/
def Value.strings : Value → List String
  | .const (.string value) => [value]
  | .element array position _ => array.strings ++ position.strings
  | _ => []

/-- The operands that a call pushes. -/
def Call.operands (call : Call) : List Value :=
  match call.invocation, call.target, call.method, call.args with
  | .newArray, _, _, size :: _ => [size]
  | .arrayLength, some array, _, _ => [array]
  | .invoke mode, some target, some _, args => operandsOf mode target args
  | _, _, _, _ => []

/-- The operands that an instruction pushes. The entry point returns nothing. -/
def Instr.pushed (isMain : Bool) : Instr → List Value
  | .call _ site => site.operands
  | .ret (some value) => if isMain then [] else [value]
  | instr => instr.sources

/-- The string constants of operands. -/
def stringsOf (values : List Value) : List String := values.flatMap Value.strings

/-- The string constants that code pushes. -/
def Code.strings (isMain : Bool) (code : Code) : List String :=
  code.flatMap fun instr => stringsOf (instr.pushed isMain)

@[simp] theorem stringsOf_append (values others : List Value) :
    stringsOf (values ++ others) = stringsOf values ++ stringsOf others :=
  List.flatMap_append

@[simp] theorem stringsOf_cons (value : Value) (values : List Value) :
    stringsOf (value :: values) = value.strings ++ stringsOf values := rfl

@[simp] theorem stringsOf_nil : stringsOf [] = [] := rfl

section

variable {table : SymbolTable} {state after : LoweringState} {code : Code} (isMain : Bool)

@[simp] theorem Code.strings_append (code other : Code) :
    Code.strings isMain (code ++ other) = Code.strings isMain code ++ Code.strings isMain other :=
  List.flatMap_append

@[simp] theorem Code.strings_cons (instr : Instr) (code : Code) :
    Code.strings isMain (instr :: code) =
      stringsOf (instr.pushed isMain) ++ Code.strings isMain code := rfl

@[simp] theorem Code.strings_nil : Code.strings isMain [] = [] := rfl

@[simp] theorem strings_nextTemp (state : LoweringState) (ty : Ty) :
    (state.nextTemp table ty).strings = [] := rfl

@[simp] theorem strings_selfValue (table : SymbolTable) : (selfValue table).strings = [] := rfl

-- Literals of the source and operands of code are read off their definitions.
attribute [local simp] Expr.strings Expr.stringsAll Stmt.strings Stmt.stringsAll Value.strings
  Instr.pushed Instr.sources Call.operands Call.invoke operandsOf

/-- Values that are packed into an array are pushed once each. -/
theorem strings_packCode (elem : Ty) (values : List Value) :
    Code.strings isMain (packCode table elem values state) = stringsOf values := by
  change ([] : List String) ++ Code.strings isMain (elementStores _ elem values) = _
  rw [List.nil_append, Code.strings, elementStores, List.flatMap_map, stringsOf]
  conv => rhs; rw [← List.zipIdx_map_fst 0 values, List.flatMap_map]
  refine List.flatMap_congr fun entry _ => ?_
  simp [Value.int]

variable (text : String)

theorem PacksArguments.count_strings {own : Option MethodSignature} {values packed : List Value}
    (packs : PacksArguments table own values state code packed after) :
    (Code.strings isMain code).count text + (stringsOf packed).count text =
      (stringsOf values).count text := by
  cases packs with
  | kept _ => simp
  | @collected fixed elem _ _ =>
      have split := congrArg stringsOf (List.take_append_drop fixed values)
      rw [stringsOf_append] at split
      simp [strings_packCode, ← split, Nat.add_comm]

/-! ## Expressions -/

theorem LowersCall.isString_eq_false {expr : Expr} {expected : Ty} {site : Call}
    (lowers : LowersCall table expr expected state code site after) : expr.isString = false := by
  cases lowers <;> rfl

/-- The value of a literal is its constant, and no other value has a string in it. -/
theorem LowersExpr.value_cases {expr : Expr} {expected : Ty} {state after : LoweringState}
    {lowered : Lowered} :
    LowersExpr table expr expected state lowered after →
      (expr.isString = true ∧ ∃ value, lowered = ⟨[], .string value⟩) ∨
        (expr.isString = false ∧ lowered.value.strings = [])
  | .string value _ _ => .inl ⟨rfl, value, rfl⟩
  | .paren lowers => lowers.value_cases
  | .call lowersCall _ => .inr ⟨lowersCall.isString_eq_false, rfl⟩
  | .int _ _ _ | .bool _ _ _ | .self _ _ | .declared _ | .field _ | .binary _ _ | .not _
  | .index _ _ | .length _ | .newArray _ | .arrayInit _ _ | .newObject _ _ _ => .inr ⟨rfl, rfl⟩

theorem isStatic_instanceCallee? (signature : MethodSignature) (name : String) :
    (Context.instanceCallee? ⟨table, signature⟩ Ty.string name).any MethodSignature.isStatic =
      table.dropsReceiver name := by
  rw [Context.instanceCallee?, SymbolTable.dropsReceiver]
  by_cases isString : table.className = "String"
  · simp [SymbolTable.classTy, Ty.string, isString]
  · simp [SymbolTable.classTy, Ty.string, Ty.named, isString, Ne.symm isString]

/-- A receiver that names a class has no literals. -/
theorem strings_of_classNamed? {context : Context} {receiver : Expr} {className : String}
    (names : context.classNamed? receiver = some className) {omits : String → Bool} :
    receiver.strings omits = [] := by
  unfold Context.classNamed? at names
  split at names
  · next isVar => simp [Expr.strings_of_unparen_eq isVar]
  · cases names

mutual

/-- The string constants of the code of an expression and of its value are its literals. -/
theorem LowersExpr.count_strings {expr : Expr} {expected : Ty} {state after : LoweringState}
    {lowered : Lowered} :
    LowersExpr table expr expected state lowered after →
      (Code.strings isMain lowered.code).count text + lowered.value.strings.count text =
        (expr.strings table.dropsReceiver).count text
  | .int _ _ _ | .bool _ _ _ | .string _ _ _ | .self _ _ | .declared _ | .field _
  | .newObject _ _ _ => by
      simp [Value.int, Value.bool, Value.string, Call.newObject, Call.construct]
  | .paren lowers => by simp [lowers.count_strings]
  | .binary lowersLeft lowersRight | .index lowersLeft lowersRight => by
      have left := lowersLeft.count_strings
      have right := lowersRight.count_strings
      simp [nextTemp, ← left, ← right, Nat.add_assoc, Nat.add_left_comm]
  | .not lowers | .length lowers | .newArray lowers => by
      have operand := lowers.count_strings
      simp [Call.arrayLength, Call.newArray, ← operand]
  | .arrayInit lowers _ => by simp [strings_packCode, ← lowers.count_strings]
  | .call lowers _ => by simp [← lowers.count_strings]

theorem LowersExprs.count_strings {expectedAt : Nat → Ty} {exprs : List Expr}
    {state after : LoweringState} {code : Code} {values : List Value} :
    LowersExprs table expectedAt exprs state code values after →
      (Code.strings isMain code).count text + (stringsOf values).count text =
        (Expr.stringsAll table.dropsReceiver exprs).count text
  | .nil _ _ => rfl
  | .cons lowersFirst lowersRest => by
      have first := lowersFirst.count_strings
      have rest := lowersRest.count_strings
      simp [← first, ← rest, Nat.add_assoc, Nat.add_left_comm]

theorem LowersCall.count_strings {expr : Expr} {expected : Ty} {state after : LoweringState}
    {code : Code} {site : Call} :
    LowersCall table expr expected state code site after →
      (Code.strings isMain code).count text + (stringsOf site.operands).count text =
        (expr.strings table.dropsReceiver).count text
  | .onClass _ lowersArgs packs | .onSelf _ _ lowersArgs packs => by
      have args := lowersArgs.count_strings
      have packed := packs.count_strings isMain text
      simp [← args, ← packed, Nat.add_assoc]
  | .onNamed names lowersArgs packs => by
      have args := lowersArgs.count_strings
      have packed := packs.count_strings isMain text
      simp [← args, ← packed, strings_of_classNamed? names, Nat.add_assoc]
  | .onObject _ lowersReceiver ownEq lowersArgs packs targetEq => by
      have object := lowersReceiver.count_strings
      have args := lowersArgs.count_strings
      have packed := packs.count_strings isMain text
      rcases lowersReceiver.value_cases with ⟨isString, value, rfl⟩ | ⟨noString, noStrings⟩
      -- A literal is dropped just if the method is static.
      · have drops := (congrArg (Option.any MethodSignature.isStatic) ownEq).trans
          (isStatic_instanceCallee? state.scope.signature _)
        rw [drops] at targetEq
        split at targetEq
        · next dropped =>
          cases targetEq
          simp [isString, dropped, ← args, ← packed, Nat.add_assoc]
        · next kept =>
          cases targetEq
          simp [kept, ← object, ← args, ← packed, Nat.add_assoc, Nat.add_left_comm]
      · split at targetEq <;> cases targetEq <;>
          simp [noString, noStrings, ← object, ← args, ← packed, Nat.add_assoc]

end

/-! ## Statements -/

/-- The string constants of the code of a statement are its literals, but for those that are
dropped. -/
theorem LowersStmt.count_strings {stmt : Stmt} (lowers : LowersStmt table stmt state code after)
    (mainEq : state.scope.signature.isMain = isMain) :
    (Code.strings isMain code).count text =
      (stmt.strings ⟨table.dropsReceiver, true, isMain⟩).count text := by
  induction lowers with
  | assignOperator targetEq _ valueEq lowersLeft lowersRight =>
      have left := lowersLeft.count_strings isMain text
      have right := lowersRight.count_strings isMain text
      simp [Expr.strings_of_unparen_eq targetEq, Expr.strings_of_unparen_eq valueEq, ← left, ← right,
        Nat.add_assoc, Nat.add_left_comm]
  | assignCall targetEq _ lowersCall =>
      have call := lowersCall.count_strings isMain text
      rw [Expr.strings_unparen] at call
      simp [Expr.strings_of_unparen_eq targetEq, ← call]
  | assignValue targetEq _ _ lowers | assignField targetEq _ lowers =>
      simp [Expr.strings_of_unparen_eq targetEq, ← lowers.count_strings isMain text]
  | assignElement targetEq lowers lowersArray lowersPosition =>
      have value := lowers.count_strings isMain text
      have array := lowersArray.count_strings isMain text
      have position := lowersPosition.count_strings isMain text
      simp [Expr.strings_of_unparen_eq targetEq, ← value, ← array, ← position, Nat.add_assoc,
        Nat.add_left_comm, Nat.add_comm]
  | exprCall lowersCall =>
      have call := lowersCall.count_strings isMain text
      have noString := lowersCall.isString_eq_false
      rw [Expr.strings_unparen] at call
      rw [Expr.isString_unparen] at noString
      simp [noString, ← call]
  | exprValue _ _ lowers =>
      rcases lowers.value_cases with ⟨isString, _, rfl⟩ | ⟨noString, noStrings⟩
      · simp [isString]
      · simp [noString, noStrings, ← lowers.count_strings isMain text]
  | @returnNothing value _ nothing =>
      cases value with
      | none => rfl
      | some value => simp [← mainEq, nothing.resolve_left (Option.some_ne_none value)]
  | returnValue notMain lowers => simp [← lowers.count_strings isMain text, ← mainEq, notMain]
  | ifElse lowersCond lowersElse lowersThen elseStrings thenStrings =>
      have elseMain := (congrArg MethodSignature.isMain lowersCond.extends.signature).trans mainEq
      have thenMain :=
        (congrArg MethodSignature.isMain lowersElse.extends.signature).trans elseMain
      simp [← lowersCond.count_strings isMain text, elseStrings elseMain, thenStrings thenMain,
        Nat.add_assoc]
  | whileLoop lowersCond lowersBody bodyStrings =>
      have bodyMain := (congrArg MethodSignature.isMain lowersCond.extends.signature).trans mainEq
      simp [← lowersCond.count_strings isMain text, bodyStrings bodyMain, Nat.add_assoc]
  | blockNil _ => rfl
  | blockCons lowersFirst lowersRest firstStrings restStrings =>
      have rest := restStrings
        ((congrArg MethodSignature.isMain lowersFirst.extends.signature).trans mainEq)
      rw [Stmt.strings] at rest
      simp [firstStrings mainEq, rest]

/-! ## Programs -/

theorem LowersMethod.count_strings {decl : MethodDecl} {state after : LoweringState}
    {method : Method} (lowers : LowersMethod table decl state method after) :
    (Code.strings method.isMain method.body).count text =
      (Stmt.stringsAll (table.droppedIn decl) decl.body).count text := by
  cases lowers with
  | @intro signature _ last code found lowersBody =>
      have body := lowersBody.count_strings signature.isMain text rfl
      rw [Stmt.strings] at body
      have complete : Code.strings signature.isMain (completeBody signature code) =
          Code.strings signature.isMain code := by
        rw [completeBody_eq]
        split
        · simp
        · rfl
      have dropped : table.droppedIn decl = ⟨table.dropsReceiver, true, signature.isMain⟩ := by
        rw [SymbolTable.droppedIn, found]
        rfl
      rw [dropped, ← body, ← complete]
      rfl

theorem LowersMethods.count_strings {decls : List MethodDecl} {state after : LoweringState}
    {methods : List Method} (lowers : LowersMethods table decls state methods after) :
    (methods.flatMap fun method => Code.strings method.isMain method.body).count text =
      (decls.flatMap fun decl => Stmt.stringsAll (table.droppedIn decl) decl.body).count text := by
  induction lowers with
  | nil _ => rfl
  | cons lowersFirst _ ih =>
      rw [List.flatMap_cons, List.flatMap_cons, List.count_append, List.count_append,
        lowersFirst.count_strings, ih]

/-- A lowered class pushes the string literals of its program, but for those that are
dropped. -/
theorem count_strings_of_lowerFresh {program : Program} {unit : ClassUnit}
    (lowered : lowerFresh table program = .ok unit) :
    (unit.methods.flatMap fun method => Code.strings method.isMain method.body).count text =
      (program.usedStrings table).count text := by
  obtain ⟨methods, after, lowers, rfl⟩ := exists_lowersMethods_of_lowerFresh lowered
  rw [Program.usedStrings, ← lowers.count_strings]
  rfl

end

end ThreeAddress

end ClassCompiler
