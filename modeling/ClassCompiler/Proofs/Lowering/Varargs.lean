import ClassCompiler.Proofs.Lowering.Expressions
import ClassCompiler.Proofs.Lowering.Invocations
import ClassCompiler.Proofs.Lowering.Temporaries
import ClassCompiler.Proofs.Semantics.Arrays

/-!
# Trailing arguments

A method whose last parameter collects trailing arguments is called with one argument for
each fixed parameter and one more. If a single array stands behind the fixed arguments, it
is passed as it is. Otherwise the last argument is a new array. It is allocated after all
arguments have been evaluated, from left to right and each of them once, and when the call
is made it holds the values of the trailing arguments and nothing else.
-/

namespace ClassCompiler.ThreeAddress

open Semantics Effects LoweringState

variable {table : SymbolTable} {state reached after : LoweringState}

/-! ## Receivers -/

theorem LowersReceiver.takesTemps {receiver : Option Expr} {code : Code}
    (lowers : LowersReceiver table receiver state code reached) :
    TakesTemps table state reached (definedTemps code) := by
  cases lowers with
  | implicit => exact .refl _
  | named => exact .refl _
  | object _ run => exact (lowersExpr_of_eq_ok table _ run).takesTemps

theorem LowersReceiver.isStep {receiver : Option Expr} {code : Code}
    (lowers : LowersReceiver table receiver state code reached) :
    ∀ instr ∈ code, instr.IsStep := by
  cases lowers with
  | implicit | named => exact List.forall_mem_nil _
  | object _ run => exact (lowersExpr_of_eq_ok table _ run).isStep

/-! ## Runs of arguments -/

/-- The code of lowered expressions runs one after the other, each once, and leaves their
values in the operands. -/
inductive RunsEach (world : World Scalar) :
    State Scalar → List Lowered → List (Val Scalar) → State Scalar → Prop where
  | nil (start : State Scalar) : RunsEach world start [] [] start
  | cons {start middle last : State Scalar} {first : Lowered} {rest : List Lowered}
      {value : Val Scalar} {values : List (Val Scalar)}
      (run : runCode world false first.code start = .ok () middle)
      (holds : Holds world middle.env first.value value)
      (runsRest : RunsEach world middle rest values last) :
      RunsEach world start (first :: rest) (value :: values) last

/-- A settled operand holds a value, whatever the variables are. -/
theorem Settled.exists_holds {operand : Value} (settled : Settled table state operand)
    (world : World Scalar) (env : String → Val Scalar) :
    ∃ value, Holds world env operand value := by
  cases settled with
  | const constant => exact ⟨constant.value, fun _ => rfl⟩
  | self ty => exact ⟨.ref world.self, fun _ => rfl⟩
  | @declared name ty _ => exact ⟨env name, holds_var name ty⟩
  | @temp number ty _ =>
      exact ⟨env (tempName number), fun _ => by simp [Value.read]⟩

theorem HoldAll.unique {world : World Scalar} {env : String → Val Scalar} {operands : List Value}
    {values others : List (Val Scalar)} (holds : HoldAll world env operands values)
    (holdsOthers : HoldAll world env operands others) : values = others := by
  have same := (holds.readAll_eq default).symm.trans (holdsOthers.readAll_eq default)
  exact Except.ok.inj same

theorem LowersEach.lowersExprs {expectedAt : Nat → Ty} {exprs : List Expr} {each : List Lowered}
    (lowers : LowersEach table expectedAt exprs state each after) :
    LowersExprs table expectedAt exprs state (each.flatMap Lowered.code) (each.map Lowered.value)
      after := by
  induction lowers with
  | nil => exact .nil _ _
  | cons runFirst _ ih =>
      rw [List.flatMap_cons, List.map_cons]
      exact .cons (lowersExpr_of_eq_ok table _ runFirst) ih

/-- The values that the code of the first expressions leaves are still there at the end. -/
theorem LowersEach.exists_runsEach {expectedAt : Nat → Ty} {exprs : List Expr}
    {each : List Lowered} (lowers : LowersEach table expectedAt exprs state each after)
    {world : World Scalar} {start last : State Scalar}
    (run : runCode world false (each.flatMap Lowered.code) start = .ok () last) :
    ∃ values, RunsEach world start each values last ∧
      HoldAll world last.env (each.map Lowered.value) values := by
  induction lowers generalizing start with
  | nil =>
      cases run
      exact ⟨[], .nil _, .nil⟩
  | @cons expectedAt expr rest state between after first others runFirst lowersRest ih =>
      rw [List.flatMap_cons, runCode_append] at run
      obtain ⟨_, middle, firstRun, restRun⟩ := bind_eq_ok_iff.mp run
      obtain ⟨values, runsRest, holdsRest⟩ := ih restRun
      have settled := (lowersExpr_of_eq_ok table _ runFirst).settled
      obtain ⟨value, holds⟩ := settled.exists_holds world middle.env
      have kept := lowersRest.lowersExprs.takesTemps.kept_of_run
        lowersRest.lowersExprs.isStep restRun
      exact ⟨value :: values, .cons firstRun holds runsRest,
        .cons (holds.kept settled kept) holdsRest⟩

/-! ## Calls with trailing arguments -/

/-- The parts of a call: the code of the receiver, the lowered arguments, the code that
packs the trailing ones and what is passed for them, with the states in between. -/
structure CallParts where
  receiverCode : Code
  reached : LoweringState
  arguments : List Lowered
  middle : LoweringState
  packing : Code
  passed : Value

namespace CallParts

/-- The values of the arguments, in order. -/
def operands (parts : CallParts) : List Value := parts.arguments.map Lowered.value

/-- The code that runs before trailing arguments are packed: that of the receiver and of the
arguments, in order. -/
def earlier (parts : CallParts) : Code :=
  parts.receiverCode ++ parts.arguments.flatMap Lowered.code

/-- The code up to the packing runs the code of the arguments, and the operands hold the
values that it leaves. They are those that the source evaluates, unless an argument has types
that lowering overlooks. -/
def Evaluates (parts : CallParts) (context : Context) (own : Option MethodSignature)
    (args : List Expr) : Prop :=
  ∀ world env memory before,
    runCode world false parts.earlier ⟨env, memory⟩ = .ok () before →
    ∃ start values, runCode world false parts.receiverCode ⟨env, memory⟩ = .ok () start ∧
      RunsEach world start parts.arguments values before ∧
      HoldAll world before.env parts.operands values ∧
      (Context.Heeded (Context.literalTypes own args ++ context.overlookedAll args) →
        evalAll context world env (expectedArgument own args) args start.memory =
          .ok values before.memory)

/-- The trailing arguments are packed into a new array of elements of a type. -/
structure Packs (parts : CallParts) (table : SymbolTable) (fixed : Nat) (elem : String) :
    Prop where
  /-- The array is held in a temporary that nothing else is held in. -/
  fresh : ∃ name, parts.passed = .temp name (Ty.arrayOf elem) ∧
    name ∉ parts.middle.scope.takenNames table ∧
    name ∉ (definedTemps parts.earlier).map Symbol.name
  /-- It has as many places as there are trailing arguments. -/
  bound : parts.arguments.length - fixed < 2147483648
  allocates : ∃ stores, parts.packing =
      .call (some parts.passed) (Call.newArray (Ty.named elem)
        (.int (Int32.ofNat (parts.arguments.length - fixed)))) :: stores ∧
    ∀ instr ∈ stores, ∃ position value,
      instr = .assign (.element parts.passed position (Ty.named elem)) value
  /-- After the packing it holds their values, and all arguments are still there. -/
  filled : ∀ world before values last, HoldAll world before.env parts.operands values →
    runCode world false parts.packing before = .ok () last →
    ∃ array, MakesArray before.memory (Ty.named elem) (values.drop fixed) array last.memory ∧
      HoldAll world last.env parts.operands values ∧ Holds world last.env parts.passed array
  /-- The packing cannot fail if the values are of the type of the elements. -/
  runs : ∀ world before values, HoldAll world before.env parts.operands values →
    (∀ value ∈ values.drop fixed, value.Fits (storageOf (Ty.named elem))) →
    ∃ last, runCode world false parts.packing before = .ok () last

end CallParts

/-- The code of a call consists of the code of its parts, the arguments are evaluated before
any of them is packed, and what is passed for the trailing ones stands for their values. -/
structure CallsWithTrailing (table : SymbolTable) (receiver : Option Expr) (args : List Expr)
    (signature : MethodSignature) (fixed : Nat) (elem : String) (state : LoweringState)
    (code : Code) (site : Call) (parts : CallParts) : Prop where
  receiver : LowersReceiver table receiver state parts.receiverCode parts.reached
  arguments : LowersEach table (argumentTy (some signature)) args parts.reached parts.arguments
    parts.middle
  code_eq : code = parts.earlier ++ parts.packing
  args_eq : site.args = parts.operands.take fixed ++ [parts.passed]
  length_eq : site.args.length = fixed + 1
  evaluates : parts.Evaluates (state.context table) (some signature) args
  /-- A single array behind the fixed arguments is passed as it is. -/
  passesArray : ∀ array, parts.operands.drop fixed = [array] → array.ty.isArray = true →
    parts.passed = array ∧ parts.packing = []
  packs : (∀ array, parts.operands.drop fixed = [array] → array.ty.isArray = false) →
    parts.Packs table fixed elem

theorem evaluates_of_lowers {receiver : Option Expr} {own : Option MethodSignature}
    {args : List Expr} {parts : CallParts}
    (lowersReceiver : LowersReceiver table receiver state parts.receiverCode parts.reached)
    (lowersEach : LowersEach table (argumentTy own) args parts.reached parts.arguments
      parts.middle) :
    parts.Evaluates (state.context table) own args := by
  intro world env memory before run
  have grows := lowersReceiver.takesTemps.grows
  rw [CallParts.earlier, runCode_append] at run
  obtain ⟨_, start, runReceiver, runArgs⟩ := bind_eq_ok_iff.mp run
  obtain ⟨values, runsEach, holds⟩ := lowersEach.exists_runsEach runArgs
  refine ⟨start, values, runReceiver, runsEach, holds, fun heeded => ?_⟩
  obtain ⟨heededLiteral, heededArgs⟩ := List.forall_mem_append.mp heeded
  have agrees : Agrees (state.scope.takenNames table) env env := fun _ _ => rfl
  have keptReceiver := lowersReceiver.takesTemps.kept_of_run lowersReceiver.isStep runReceiver
  rw [evalAll_congr (Context.Heeded.alike_argument heededLiteral (state.context table))]
  rw [← grows.context_eq] at heededArgs ⊢
  obtain ⟨others, evaluates, _, holdsOthers⟩ :=
    (lowersEach.lowersExprs.computes (agrees.kept keptReceiver grows) heededArgs).of_run runArgs
  rw [holds.unique holdsOthers]
  exact evaluates

/-- Packing a new array keeps the operands and leaves the array that the source makes. -/
theorem packs_of_packCode {parts : CallParts} {fixed : Nat} {elem : String}
    (takes : TakesTemps table state parts.middle (definedTemps parts.earlier))
    (settled : ∀ operand ∈ parts.operands, Settled table parts.middle operand)
    (bound : (parts.operands.drop fixed).length < 2147483648)
    (packingEq : parts.packing =
      packCode table (Ty.named elem) (parts.operands.drop fixed) parts.middle)
    (passedEq : parts.passed = parts.middle.nextTemp table (Ty.arrayOf elem)) :
    parts.Packs table fixed elem := by
  have lengthEq : (parts.operands.drop fixed).length = parts.arguments.length - fixed := by
    rw [List.length_drop, CallParts.operands, List.length_map]
  have computes {world : World Scalar} {env : String → Val Scalar} {values : List (Val Scalar)}
      (holds : HoldAll world env parts.operands values) :
      Computes world env parts.packing (evalArray world (Ty.named elem) (values.drop fixed))
        (fun array last => Kept table parts.middle
            (parts.middle.withTemp table (Ty.arrayOf elem)) env last ∧
          Holds world last parts.passed array) := by
    rw [packingEq, passedEq]
    exact computes_packCode rfl (List.forall₂_drop fixed holds) fun operand among =>
      settled operand (List.mem_of_mem_drop among)
  have small {world : World Scalar} {env : String → Val Scalar} {values : List (Val Scalar)}
      (holds : HoldAll world env parts.operands values) :
      (values.drop fixed).length < 2147483648 := by
    rw [← (List.forall₂_drop fixed holds).length_eq]
    exact bound
  refine ⟨?_, lengthEq ▸ bound, ?_, ?_, ?_⟩
  · refine ⟨_, passedEq, NameSupply.tempName_freeNumber_not_mem _ _, fun among => ?_⟩
    -- the names of earlier temporaries have smaller numbers
    obtain ⟨number, same, _, upper, _⟩ := takes.numbered _ among
    have lower := parts.middle.le_tempNumber table
    rw [tempName_inj] at same
    omega
  · refine ⟨elementStores parts.passed (Ty.named elem) (parts.operands.drop fixed), ?_, ?_⟩
    · rw [packingEq, passedEq, packCode, lengthEq]
      rfl
    · intro instr among
      obtain ⟨⟨value, position⟩, _, rfl⟩ := List.mem_map.mp among
      exact ⟨_, _, rfl⟩
  · intro world before values last holds run
    obtain ⟨array, made, kept, holdsArray⟩ := (computes holds).of_run run
    exact ⟨array, makesArray_of_evalArray (small holds) made, holds.kept settled kept, holdsArray⟩
  · intro world before values holds fits
    obtain ⟨array, after, made⟩ := exists_evalArray world before.memory (small holds) fits
    have computed := computes holds before.memory
    rw [made] at computed
    obtain ⟨env, run, _⟩ := computed
    exact ⟨_, run⟩

/-- The trailing arguments of a call arrive as the elements of one array. -/
theorem trailing_arguments_are_packed {receiver : Option Expr} {name : String} {args : List Expr}
    {expected : Ty} {code : Code} {site : Call} {signature : MethodSignature}
    {fixed : List Symbol} {last elem : String}
    (paramsEq : signature.params = fixed ++ [⟨last, Ty.varargOf elem⟩])
    (enough : fixed.length ≤ args.length)
    (addresses : (state.context table).addressed? receiver name = some signature)
    (run : lowerInvocation table receiver name args expected state = .ok (code, site) after) :
    ∃ parts, CallsWithTrailing table receiver args signature fixed.length elem state code site
      parts := by
  obtain ⟨receiverCode, reached, argumentCode, operands, middle, packing, packed, mode, target,
    lowersReceiver, lowersArgs, packs, codeEq, rfl⟩ := lowerInvocation_eq_ok addresses run
  obtain ⟨arguments, lowersEach, argumentCodeEq, rfl⟩ := lowersEach_of_eq_ok lowersArgs
  have lowers := lowersExprs_of_eq_ok table args lowersArgs
  have takes := lowersReceiver.takesTemps.append lowers.takesTemps
  have lengthEq : (arguments.map Lowered.value).length = args.length := by
    rw [List.length_map, lowersEach.length_eq]
  have argsLength (passed : Value) :
      ((arguments.map Lowered.value).take fixed.length ++ [passed]).length = fixed.length + 1 := by
    rw [List.length_append, List.length_take, List.length_singleton, lengthEq,
      Nat.min_eq_left enough]
  rw [argumentCodeEq] at codeEq takes
  obtain ⟨array, trailingEq, isArray, rfl, rfl⟩ | ⟨several, bound, rfl, rfl⟩ :=
    packs.cases_of_params paramsEq
  · refine ⟨⟨receiverCode, reached, arguments, middle, [], array⟩, lowersReceiver, lowersEach,
      codeEq, rfl, argsLength array, evaluates_of_lowers lowersReceiver lowersEach,
      ?_, ?_⟩
    · intro other otherEq _
      cases trailingEq.symm.trans otherEq
      exact ⟨rfl, rfl⟩
    · intro none
      rw [none array trailingEq] at isArray
      cases isArray
  · refine ⟨⟨receiverCode, reached, arguments, middle, _, _⟩, lowersReceiver, lowersEach,
      codeEq, rfl, argsLength _, evaluates_of_lowers lowersReceiver lowersEach,
      ?_, ?_⟩
    · intro array trailingEq isArray
      rw [several array trailingEq] at isArray
      cases isArray
    · intro _
      exact packs_of_packCode takes lowers.settled bound rfl rfl

/-- A method that collects the arguments behind the first one. -/
def scoreSignature : MethodSignature where
  name := "best"
  returnTy := Ty.int
  params := [⟨"first", Ty.int⟩] ++ [⟨"more", Ty.varargOf "int"⟩]

/-- A class with a method that collects arguments and one that computes some. -/
def scoreTable : SymbolTable where
  className := "Score"
  methods := [scoreSignature, { name := "next", returnTy := Ty.int }]

theorem trailing_arguments_scoreTable :
    ∃ code site after parts,
      lowerInvocation scoreTable (some .self) "best"
        [.selfCall "next" [], .selfCall "next" [], .int 3] Ty.int {} = .ok (code, site) after ∧
      CallsWithTrailing scoreTable (some .self)
        [.selfCall "next" [], .selfCall "next" [], .int 3] scoreSignature 1 "int" {} code site
        parts ∧
      parts.Packs scoreTable 1 "int" := by
  obtain ⟨⟨code, site⟩, after, run⟩ := exists_ok_of_isSome (by decide +kernel :
    ((lowerInvocation scoreTable (some .self) "best"
      [.selfCall "next" [], .selfCall "next" [], .int 3] Ty.int).run' {}).isSome = true)
  have addresses : (({} : LoweringState).context scoreTable).addressed? (some .self) "best" =
      some scoreSignature := rfl
  obtain ⟨parts, calls⟩ := trailing_arguments_are_packed rfl (by decide) addresses run
  refine ⟨code, site, after, parts, run, calls, calls.packs ?_⟩
  intro array trailingEq
  have lengthEq := congrArg List.length trailingEq
  rw [List.length_drop, CallParts.operands, List.length_map, calls.arguments.length_eq]
    at lengthEq
  cases lengthEq

end ClassCompiler.ThreeAddress
