import ClassCompiler.Proofs.Lowering.Correctness
import ClassCompiler.Proofs.Lowering.Rendering

/-!
# The order of calls

The calls of a method body stand in a fixed order in its source: a call behind its receiver
and its arguments, operands from left to right, the value of an assignment before its
target, the negative branch of a conditional before the positive one. The lowered body has
these calls in this order, each once. The blocks of lowered code follow the occurrences of
the source, and only the occurrence of a call has a call in its block.
-/

namespace ClassCompiler

/-! ## Calls of the source -/

mutual

/-- The names of the methods that an expression calls, in the order of evaluation. -/
def Expr.calledNames : Expr → List String
  | .int _ | .bool _ | .string _ | .self | .var _ | .newObject _ => []
  | .paren inner => inner.calledNames
  | .not operand => operand.calledNames
  | .length array => array.calledNames
  | .newArray _ size => size.calledNames
  | .binary _ left right => left.calledNames ++ right.calledNames
  | .index array position => array.calledNames ++ position.calledNames
  | .arrayInit elements => calledNamesAll elements
  | .selfCall name args => calledNamesAll args ++ [name]
  | .call receiver name args => receiver.calledNames ++ calledNamesAll args ++ [name]

/-- The names of the methods that expressions call, from left to right. -/
def Expr.calledNamesAll : List Expr → List String
  | [] => []
  | expr :: rest => expr.calledNames ++ calledNamesAll rest

end

mutual

/-- The names of the methods that a statement calls, in the order of its code. A return from
the entry point computes nothing. -/
def Stmt.calledNames (isMain : Bool) : Stmt → List String
  | .assign target value => value.calledNames ++ target.calledNames
  | .expr value => value.calledNames
  | .ret none => []
  | .ret (some value) => if isMain then [] else value.calledNames
  | .ifElse cond thenBranch elseBranch =>
      cond.calledNames ++ elseBranch.calledNames isMain ++ thenBranch.calledNames isMain
  | .whileLoop cond body => cond.calledNames ++ body.calledNames isMain
  | .block body => calledNamesAll isMain body

/-- The names of the methods that statements call, one after the other. -/
def Stmt.calledNamesAll (isMain : Bool) : List Stmt → List String
  | [] => []
  | stmt :: rest => stmt.calledNames isMain ++ calledNamesAll isMain rest

end

theorem Expr.calledNames_unparen (expr : Expr) : expr.unparen.calledNames = expr.calledNames := by
  fun_induction Expr.unparen expr with
  | case1 inner ih => rw [ih, calledNames]
  | case2 => rfl

/-! ## Calls of occurrences -/

namespace Semantics

/-- The method that an occurrence calls. -/
def Occurrence.calledName? : Occurrence → Option String
  | .call _ _ name _ _ _ => some name
  | _ => none

/-- The names of the methods that occurrences call. -/
def calledNames (occurrences : List Occurrence) : List String :=
  occurrences.filterMap Occurrence.calledName?

@[simp] theorem calledNames_nil : calledNames [] = [] := rfl

theorem calledNames_singleton (occurrence : Occurrence) :
    calledNames [occurrence] = occurrence.calledName?.toList := by
  rw [calledNames, List.filterMap_cons]
  cases occurrence.calledName? <;> rfl

@[simp] theorem calledNames_append (first second : List Occurrence) :
    calledNames (first ++ second) = calledNames first ++ calledNames second :=
  List.filterMap_append

@[simp] theorem calledNames_collectedArray (own : Option MethodSignature) (tys : List Ty) :
    calledNames (collectedArray own tys) = [] := by
  unfold collectedArray
  split <;> rfl

namespace Context

variable (context : Context)

/-- A receiver that names a class calls nothing. -/
theorem calledNames_of_classNamed? {receiver : Expr} {className : String}
    (names : context.classNamed? receiver = some className) : receiver.calledNames = [] := by
  rw [← Expr.calledNames_unparen]
  unfold classNamed? at names
  split at names
  · next isVar => rw [isVar, Expr.calledNames]
  · cases names

mutual

/-- The occurrences of an expression call what the expression calls. -/
theorem calledNames_occurrences : (expr : Expr) → ∀ expected dest,
    calledNames (context.occurrences expr expected dest) = expr.calledNames
  | .int _, _, _ | .bool _, _, _ | .string _, _, _ | .self, _, _ | .var _, _, _
  | .newObject _, _, _ => by
      rw [occurrences, Expr.calledNames]
      rfl
  | .paren inner, expected, dest => by
      rw [occurrences, Expr.calledNames, calledNames_occurrences inner]
  | .not operand, _, _ | .length operand, _, _ | .newArray _ operand, _, _ => by
      rw [occurrences, Expr.calledNames, calledNames_append, calledNames_occurrences operand]
      exact List.append_nil _
  | .binary _ left right, _, _ | .index left right, _, _ => by
      rw [occurrences, Expr.calledNames, calledNames_append, calledNames_append,
        calledNames_occurrences left, calledNames_occurrences right]
      exact List.append_nil _
  | .arrayInit elements, _, _ => by
      rw [occurrences, Expr.calledNames, calledNames_append, calledNames_occurrencesAll elements]
      exact List.append_nil _
  | .selfCall name args, _, _ => by
      simp only [occurrences, Expr.calledNames, calledNames_append, calledNames_collectedArray,
        calledNames_occurrencesAll args, List.append_nil]
      rfl
  | .call receiver name args, _, _ => by
      rw [occurrences, Expr.calledNames]
      cases names : context.classNamed? receiver with
      | some className =>
          simp only [calledNames_append, calledNames_collectedArray,
            calledNames_occurrencesAll args, context.calledNames_of_classNamed? names,
            List.append_nil, List.nil_append]
          rfl
      | none =>
          simp only [calledNames_append, calledNames_collectedArray,
            calledNames_occurrences receiver, calledNames_occurrencesAll args, List.append_nil]
          rfl

theorem calledNames_occurrencesAll : (exprs : List Expr) → ∀ expectedAt,
    calledNames (context.occurrencesAll expectedAt exprs) = Expr.calledNamesAll exprs
  | [], _ => by
      rw [occurrencesAll, Expr.calledNamesAll, calledNames_nil]
  | expr :: rest, _ => by
      rw [occurrencesAll, Expr.calledNamesAll, calledNames_append, calledNames_occurrences expr,
        calledNames_occurrencesAll rest]

end

theorem calledNames_variableOccurrences (declared : Ty) (value : Expr) :
    calledNames (context.variableOccurrences declared value) = value.calledNames := by
  unfold variableOccurrences
  split
  · exact context.calledNames_occurrences value _ _
  · rw [calledNames_append, calledNames_occurrences]
    exact List.append_nil _

/-- An assignment calls what its value and then its target call, unless its target is none. -/
theorem calledNames_assignOccurrences {target value : Expr}
    (valid : .invalidTarget ∉ context.assignOccurrences target value) :
    calledNames (context.assignOccurrences target value) =
      value.calledNames ++ target.calledNames := by
  rw [← target.calledNames_unparen]
  unfold assignOccurrences at valid ⊢
  cases inner : target.unparen with
  | var name =>
      rw [inner] at valid
      simp only [Expr.calledNames, List.append_nil] at valid ⊢
      cases resolves : context.resolve? name with
      | none => simp [resolves] at valid
      | some binding =>
          cases binding with
          | declared ty => exact context.calledNames_variableOccurrences ty value
          | field ty =>
              simp only [calledNames_append, calledNames_occurrences]
              exact List.append_nil _
          | className => simp [resolves] at valid
  | index array position =>
      simp only [Expr.calledNames, calledNames_append, calledNames_occurrences]
      rw [← List.append_assoc]
      exact List.append_nil _
  | _ => simp [inner] at valid

theorem calledNames_returnOccurrences (value : Option Expr) :
    calledNames (context.returnOccurrences value) =
      (Stmt.ret value).calledNames context.signature.isMain := by
  cases value with
  | none =>
      rw [returnOccurrences, Stmt.calledNames]
      rfl
  | some value =>
      rw [returnOccurrences, Stmt.calledNames]
      split
      · rfl
      · rw [calledNames_append, calledNames_occurrences]
        exact List.append_nil _

mutual

/-- The occurrences of a statement call what the statement calls. -/
theorem calledNames_stmtOccurrences : (stmt : Stmt) →
    .invalidTarget ∉ context.stmtOccurrences stmt →
    calledNames (context.stmtOccurrences stmt) = stmt.calledNames context.signature.isMain
  | .assign target value, valid => by
      rw [stmtOccurrences] at valid ⊢
      rw [context.calledNames_assignOccurrences valid, Stmt.calledNames]
  | .expr value, _ => by
      rw [stmtOccurrences, calledNames_occurrences, Stmt.calledNames]
  | .ret value, _ => by
      rw [stmtOccurrences, calledNames_returnOccurrences]
  | .ifElse cond thenBranch elseBranch, valid => by
      simp only [stmtOccurrences, List.mem_append, not_or] at valid
      rw [stmtOccurrences, Stmt.calledNames, calledNames_append, calledNames_append,
        calledNames_append, calledNames_occurrences,
        calledNames_stmtOccurrences elseBranch valid.1.2,
        calledNames_stmtOccurrences thenBranch valid.2]
      simp [calledNames, Occurrence.calledName?]
  | .whileLoop cond body, valid => by
      simp only [stmtOccurrences, List.mem_append, not_or] at valid
      rw [stmtOccurrences, Stmt.calledNames, calledNames_append, calledNames_append,
        calledNames_occurrences, calledNames_stmtOccurrences body valid.2]
      simp [calledNames, Occurrence.calledName?]
  | .block body, valid => by
      rw [stmtOccurrences] at valid ⊢
      rw [Stmt.calledNames, calledNames_bodyOccurrences body valid]

theorem calledNames_bodyOccurrences : (body : List Stmt) →
    .invalidTarget ∉ context.bodyOccurrences body →
    calledNames (context.bodyOccurrences body) =
      Stmt.calledNamesAll context.signature.isMain body
  | [], _ => by
      rw [bodyOccurrences, Stmt.calledNamesAll, calledNames_nil]
  | stmt :: rest, valid => by
      simp only [bodyOccurrences, List.mem_append, not_or] at valid
      rw [bodyOccurrences, Stmt.calledNamesAll, calledNames_append,
        calledNames_stmtOccurrences stmt valid.1, calledNames_bodyOccurrences rest valid.2]

end

end Context

end Semantics

/-! ## Calls of lowered code -/

namespace ThreeAddress

open Semantics (Context Occurrence)

/-- What a call names as its method, if it invokes one by its class or by its receiver. -/
def Call.callee? (site : Call) : Option (Option String) :=
  match site.invocation with
  | .invoke .static | .invoke .virtual => some site.method
  | _ => none

/-- What an instruction names as its method, if it is such a call. -/
def Instr.callee? : Instr → Option (Option String)
  | .call _ site => site.callee?
  | _ => none

/-- What the static and virtual calls of code name as their methods, in code order. -/
def Code.callees (code : Code) : List (Option String) := code.filterMap Instr.callee?

variable {context : Context} {hasSelf : Prop}

theorem callees_elementStores (array : Value) (elem : Ty) (values : List Value) :
    Code.callees (elementStores array elem values) = [] := by
  rw [Code.callees, List.filterMap_eq_nil_iff]
  intro instr member
  obtain ⟨_, _, rfl⟩ := List.mem_map.mp member
  rfl

/-- The block of an occurrence has one call if the occurrence is one, and else none. -/
theorem Block.callees_eq {occurrence : Occurrence} {code : Code}
    (isBlock : Block context hasSelf occurrence code) :
    Code.callees code = occurrence.calledName?.toList.map some := by
  cases isBlock with
  | @call _ target _ _ _ _ mode _ _ _ isReceiver =>
      cases target with
      | onClass className | onObject ty =>
          obtain ⟨rfl, _⟩ := isReceiver
          rfl
  | array => exact callees_elementStores _ _ _
  | _ => rfl

/-- Lowered code has the calls of its occurrences, in their order. -/
theorem Renders.callees_eq {occurrences : List Occurrence} {code : Code}
    (renders : Renders context hasSelf occurrences code) :
    Code.callees code = (Semantics.calledNames occurrences).map some := by
  induction renders with
  | nil => rfl
  | @block occurrence occurrences code rest isBlock _ ih =>
      calc Code.callees (code ++ rest)
          = Code.callees code ++ Code.callees rest := List.filterMap_append
        _ = occurrence.calledName?.toList.map some ++
              (Semantics.calledNames occurrences).map some := by
            rw [isBlock.callees_eq, ih]
        _ = (Semantics.calledNames ([occurrence] ++ occurrences)).map some := by
            rw [Semantics.calledNames_append, List.map_append, Semantics.calledNames_singleton]
  | @control _ instr _ isControl _ ih =>
      cases instr with
      | label name | goto target => exact ih
      | _ => exact isControl.elim

/-- Nothing is assigned to what is no target: such an assignment has no code. -/
theorem Renders.invalidTarget_notMem {occurrences : List Occurrence} {code : Code}
    (renders : Renders context hasSelf occurrences code) : .invalidTarget ∉ occurrences := by
  induction renders with
  | nil => exact List.not_mem_nil
  | block isBlock _ ih =>
      rw [List.mem_cons, not_or]
      refine ⟨?_, ih⟩
      rintro rfl
      cases isBlock
  | control _ _ ih => exact ih

theorem callees_completeBody (signature : MethodSignature) (code : Code) :
    Code.callees (completeBody signature code) = Code.callees code := by
  rw [completeBody_eq]
  split
  · exact List.filterMap_append.trans (List.append_nil _)
  · rfl

/-- A lowered method has the calls of its source, each once, in the order in which they are
evaluated. -/
theorem calls_in_order_of_lowerMethod {table : SymbolTable} {decl : MethodDecl}
    {state after : LoweringState} {method : Method}
    (run : lowerMethod table decl state = .ok method after) :
    method.body.callees = (Stmt.calledNamesAll method.isMain decl.body).map some := by
  obtain ⟨signature, code, found, rfl, _, renders⟩ :=
    @LowersMethod.exists_renders _ _ _ _ _ (fun _ => True) (lowersMethod_of_eq_ok run)
      fun _ _ _ => trivial
  have occur : Semantics.calledNames ((Context.mk table signature).bodyOccurrences decl.body) =
      Stmt.calledNamesAll signature.isMain decl.body :=
    Context.calledNames_bodyOccurrences ⟨table, signature⟩ decl.body renders.invalidTarget_notMem
  calc (methodOf signature (definedTemps code) code).body.callees
      = Code.callees code := callees_completeBody signature code
    _ = (Semantics.calledNames
          ((Context.mk table signature).bodyOccurrences decl.body)).map some :=
        renders.callees_eq
    _ = (Stmt.calledNamesAll signature.isMain decl.body).map some := by rw [occur]

/-- A method with nested calls: a loop while `this.ready()`, in it a conditional on
`this.ready() && Clock.rings()` that assigns
`this.count(this.next(this.peek()), this.first(), Clock.now())` to an element of
`this.rows()` or else calls `this.skip()`, and a return of `this.last()`. -/
def tallyDecl : MethodDecl where
  name := "tally"
  returnTy := Ty.int
  params := []
  locals := []
  body := [
    .whileLoop (.call .self "ready" [])
      (.ifElse (.binary .and (.selfCall "ready" []) (.call (.var "Clock") "rings" []))
        (.block [.assign (.index (.call .self "rows" []) (.call .self "last" []))
          (.selfCall "count" [.call .self "next" [.call .self "peek" []],
            .call .self "first" [], .call (.var "Clock") "now" []])])
        (.expr (.call .self "skip" []))),
    .ret (some (.paren (.call .self "last" [])))]
  isStatic := false
  isPublic := true

/-- The table of a class that declares the method and one that collects arguments, and
inherits the rest. -/
def tallyTable : SymbolTable where
  className := "Tally"
  superClass := some "Counter"
  imports := ["base.Counter", "time.Clock"]
  methods := [
    .ofDecl tallyDecl,
    { name := "count", returnTy := Ty.int,
      params := [⟨"first", Ty.int⟩, ⟨"others", Ty.varargOf "int"⟩] },
    { name := "rows", returnTy := Ty.arrayOf "int" }]

theorem calls_in_order_tallyDecl :
    ∃ method after, lowerMethod tallyTable tallyDecl {} = .ok method after ∧
      method.body.callees = (["ready", "ready", "rings", "skip", "peek", "next", "first", "now",
        "count", "rows", "last", "last"].map some) := by
  have lowers : ((lowerMethod tallyTable tallyDecl).run' {}).map Method.isMain = some false := by
    decide +kernel
  delta EStateM.run' EStateM.run at lowers
  cases run : lowerMethod tallyTable tallyDecl {} with
  | error error after =>
      rw [run] at lowers
      cases lowers
  | ok method after =>
      rw [run] at lowers
      have isMain : method.isMain = false := Option.some.inj lowers
      refine ⟨method, after, rfl, ?_⟩
      rw [calls_in_order_of_lowerMethod run, isMain]
      decide

end ThreeAddress

end ClassCompiler
