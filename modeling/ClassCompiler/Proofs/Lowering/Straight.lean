import ClassCompiler.Proofs.Effects
import ClassCompiler.Proofs.Lowering.Growth
import ClassCompiler.Proofs.Semantics.Source

/-!
# Code without jumps

Straight code is run by running its instructions one after the other. It computes
an action of the source if it changes the memory as the action does and leaves
variables that satisfy a condition on the result. Such computations can be put in
sequence, which is all that the code of an expression is made of.

The condition always says which variables were kept: all but the temporaries that
were taken for the code.
-/

namespace ClassCompiler.ThreeAddress

open Semantics Effects

/-- Run code without jumps. -/
def runCode {S : Type} [Arithmetic S] (world : World S) (checked : Bool) :
    Code → Action (State S) Unit
  | [] => pure ()
  | instr :: rest => do
      instr.effect world checked
      runCode world checked rest

theorem runCode_append {S : Type} [Arithmetic S] (world : World S) (checked : Bool)
    (first second : Code) (state : State S) :
    runCode world checked (first ++ second) state =
      (do runCode world checked first; runCode world checked second) state := by
  induction first generalizing state with
  | nil => rfl
  | cons instr rest ih =>
      simp only [List.cons_append, runCode, bind_apply]
      cases instr.effect world checked state with
      | ok _ after => simp only [ih, bind_apply]
      | error reason after => rfl

/-! ## Variables that are not assigned to -/

section

variable {S : Type} [Arithmetic S] {world : World S} {checked : Bool} {name : String}

omit [Arithmetic S] in
/-- A computation that, if it ends well, has not assigned to a variable. -/
def Spares {α : Type} (name : String) (action : Action (State S) α) : Prop :=
  ∀ state value last, action state = .ok value last → last.env name = state.env name

namespace Spares

variable {α β : Type} {action : Action (State S) α} {next : α → Action (State S) β}

omit [Arithmetic S]

theorem pure (value : α) : Spares name (Pure.pure value : Action (State S) α) := by
  intro state value last run
  cases run
  rfl

theorem throw (reason : Abort) : Spares name (MonadExcept.throw reason : Action (State S) α) := by
  intro state value last run
  cases run

theorem bind (first : Spares name action) (follows : ∀ value, Spares name (next value)) :
    Spares name (action >>= next) := by
  intro state result last run
  obtain ⟨value, middle, firstRun, nextRun⟩ := bind_eq_ok_iff.mp run
  rw [follows value middle result last nextRun, first state value middle firstRun]

theorem attempt (result : Except Abort α) :
    Spares name (Semantics.attempt result : Action (State S) α) := by
  cases result with
  | ok value => exact .pure value
  | error reason => exact .throw reason

theorem get : Spares name (MonadState.get : Action (State S) (State S)) := by
  intro state value last run
  cases run
  rfl

theorem onMemory (action : Action (Memory S) α) : Spares name (Semantics.onMemory action) := by
  intro state value last run
  unfold Semantics.onMemory at run
  split at run <;> cases run
  rfl

end Spares

theorem spares_fetch (operand : Value) : Spares name (operand.fetch world checked) :=
  .bind .get fun _ => .attempt _

theorem spares_perform (call : Call) : Spares name (call.perform world checked) := by
  obtain ⟨invocation, target, method, args, returnTy⟩ := call
  cases invocation with
  | new => exact .bind (.onMemory _) fun _ => .pure _
  | newArray =>
      cases args with
      | nil => exact .throw _
      | cons size rest =>
          exact .bind (spares_fetch size) fun _ => .bind (.onMemory _) fun _ => .pure _
  | arrayLength =>
      cases target with
      | none => exact .throw _
      | some array =>
          exact .bind (spares_fetch array) fun _ => .bind .get fun _ =>
            .bind (.attempt _) fun _ => .pure _
  | invoke mode =>
      cases method with
      | none => exact .throw _
      | some method =>
          cases target with
          | none => exact .throw _
          | some target =>
              have receiver : Spares name (fetchReceiver world checked mode target) := by
                unfold fetchReceiver
                split
                · exact .pure _
                · exact .bind (spares_fetch target) fun _ => .pure _
              exact .bind (.attempt _) fun _ => .bind receiver fun _ => .bind .get fun _ =>
                .bind (.attempt _) fun _ => .bind (.attempt _) fun _ =>
                .bind (.attempt _) fun _ => .onMemory _

omit [Arithmetic S] in
theorem spares_write {dest : Value} (isTemp : ∀ ty, dest ≠ .temp name ty)
    (isVar : ∀ ty, dest ≠ .var name ty) (value : Val S) :
    Spares name (dest.write checked value) := by
  have assigns {other : String} (differs : other ≠ name) (accepted : Except Abort (Val S)) :
      Spares name (do
        let value ← Semantics.attempt accepted
        modify fun state => { state with env := assignVariable state.env other value } :
          Action (State S) Unit) := by
    refine .bind (.attempt _) fun value state _ last run => ?_
    cases run
    exact assignVariable_other _ _ differs.symm
  cases dest with
  | temp other ty =>
      exact assigns (fun same => isTemp ty (same ▸ rfl)) _
  | var other ty =>
      exact assigns (fun same => isVar ty (same ▸ rfl)) _
  | _ => exact .throw _

/-- An instruction assigns to its destination only. -/
theorem spares_effect {instr : Instr} (isTemp : ∀ ty, instr.dest? ≠ some (.temp name ty))
    (isVar : ∀ ty, instr.dest? ≠ some (.var name ty)) :
    Spares name (instr.effect world checked) := by
  have writes {dest : Value} (destEq : instr.dest? = some dest) (value : Val S) :
      Spares name (dest.write checked value) :=
    spares_write (fun ty same => isTemp ty (same ▸ destEq))
      (fun ty same => isVar ty (same ▸ destEq))
      value
  cases instr with
  | assign dest value =>
      cases dest with
      | element array position ty =>
          exact .bind (spares_fetch _) fun _ => .bind (spares_fetch _) fun _ =>
            .bind (spares_fetch _) fun _ => .onMemory _
      | _ => exact .bind (spares_fetch _) fun _ => writes rfl _
  | binary dest op left right =>
      exact .bind (spares_fetch _) fun _ => .bind (spares_fetch _) fun _ =>
        .bind (.attempt _) fun _ => writes rfl _
  | not dest operand =>
      exact .bind (spares_fetch _) fun _ => .bind (.attempt _) fun _ => writes rfl _
  | getField dest object field ty =>
      exact .bind (spares_fetch _) fun _ => .bind .get fun _ => .bind (.attempt _) fun _ =>
        writes rfl _
  | putField object field value =>
      exact .bind (spares_fetch _) fun _ => .bind (spares_fetch _) fun _ => .onMemory _
  | call dest site =>
      refine .bind (spares_perform site) fun result => ?_
      cases dest with
      | none => exact .pure _
      | some dest =>
          cases result with
          | none => exact .throw _
          | some value => exact writes rfl value
  | _ => exact .pure _

theorem spares_runCode {code : Code}
    (each : ∀ instr ∈ code, Spares name (instr.effect world checked)) :
    Spares name (runCode world checked code) := by
  induction code with
  | nil => exact .pure ()
  | cons instr rest ih =>
      obtain ⟨first, others⟩ := List.forall_mem_cons.mp each
      exact .bind first fun _ => ih others

end

variable {table : SymbolTable} {world : World Scalar} {env : String → Val Scalar}

/-! ## Computations -/

/-- Code computes an action from given variables on, in every memory. -/
def Computes {α : Type} (world : World Scalar) (env : String → Val Scalar) (code : Code)
    (action : Action (Memory Scalar) α) (post : α → (String → Val Scalar) → Prop) : Prop :=
  ∀ memory, match action memory with
    | .ok value after =>
        ∃ last, runCode world false code ⟨env, memory⟩ = .ok () ⟨last, after⟩ ∧
          post value last
    | .error reason after =>
        ∃ last, runCode world false code ⟨env, memory⟩ = .error reason ⟨last, after⟩

theorem Computes.pure {α : Type} {value : α} {post : α → (String → Val Scalar) → Prop}
    (holds : post value env) : Computes world env [] (Pure.pure value) post :=
  fun _ => ⟨env, rfl, holds⟩

theorem Computes.mono {α : Type} {code : Code} {action : Action (Memory Scalar) α}
    {post weaker : α → (String → Val Scalar) → Prop}
    (computes : Computes world env code action post)
    (implies : ∀ value last, post value last → weaker value last) :
    Computes world env code action weaker := by
  intro memory
  have computed := computes memory
  cases result : action memory with
  | ok value after =>
      rw [result] at computed
      rcases computed with ⟨last, runEq, holds⟩
      exact ⟨last, runEq, implies value last holds⟩
  | error reason after =>
      rw [result] at computed
      exact computed

/-- A run to the end of the code is a run of the action. -/
theorem Computes.of_run {α : Type} {code : Code} {action : Action (Memory Scalar) α}
    {post : α → (String → Val Scalar) → Prop} (computes : Computes world env code action post)
    {memory : Memory Scalar} {last : State Scalar}
    (run : runCode world false code ⟨env, memory⟩ = .ok () last) :
    ∃ value, action memory = .ok value last.memory ∧ post value last.env := by
  have computed := computes memory
  cases result : action memory with
  | ok value after =>
      rw [result] at computed
      obtain ⟨env, runEq, holds⟩ := computed
      rw [run] at runEq
      cases runEq
      exact ⟨value, rfl, holds⟩
  | error reason after =>
      rw [result] at computed
      obtain ⟨env, runEq⟩ := computed
      rw [run] at runEq
      cases runEq

/-- Computations in sequence. -/
theorem Computes.bind {α β : Type} {first second : Code} {action : Action (Memory Scalar) α}
    {next : α → Action (Memory Scalar) β} {between : α → (String → Val Scalar) → Prop}
    {post : β → (String → Val Scalar) → Prop}
    (computesFirst : Computes world env first action between)
    (computesSecond : ∀ value middle, between value middle →
      Computes world middle second (next value) post) :
    Computes world env (first ++ second) (action >>= next) post := by
  intro memory
  have computed := computesFirst memory
  rw [runCode_append, bind_apply, bind_apply]
  cases result : action memory with
  | ok value after =>
      rw [result] at computed
      rcases computed with ⟨middle, runEq, holds⟩
      rw [runEq]
      exact computesSecond value middle holds after
  | error reason after =>
      rw [result] at computed
      rcases computed with ⟨last, runEq⟩
      rw [runEq]
      exact ⟨last, rfl⟩

/-- What follows a computation may need no code. -/
theorem Computes.followed {α β : Type} {code : Code} {action : Action (Memory Scalar) α}
    {next : α → Action (Memory Scalar) β} {between : α → (String → Val Scalar) → Prop}
    {post : β → (String → Val Scalar) → Prop} (computes : Computes world env code action between)
    (computesNext : ∀ value last, between value last → Computes world last [] (next value) post) :
    Computes world env code (action >>= next) post := by
  simpa using computes.bind computesNext

/-- One instruction that acts on the memory and then changes the variables. -/
theorem Computes.single {α : Type} {instr : Instr} {action : Action (Memory Scalar) α}
    {assigned : α → String → Val Scalar}
    (effectEq : ∀ memory, instr.effect world false ⟨env, memory⟩ =
      (do
        let value ← onMemory action
        modify fun state => { state with env := assigned value } :
          Action (State Scalar) Unit) ⟨env, memory⟩) :
    Computes world env [instr] action (fun value last => last = assigned value) := by
  intro memory
  have runEq : runCode world false [instr] ⟨env, memory⟩ =
      instr.effect world false ⟨env, memory⟩ := by
    rw [runCode, runCode, bind_apply]
    cases instr.effect world false ⟨env, memory⟩ <;> rfl
  rw [runEq, effectEq, bind_apply, onMemory]
  cases action memory with
  | ok value after => exact ⟨assigned value, rfl, rfl⟩
  | error reason after => exact ⟨env, rfl⟩

/-! ## Kept variables -/

/-- A name that was given to a temporary between two states. -/
def IsNew (table : SymbolTable) (state after : LoweringState) (name : String) : Prop :=
  name ∉ state.scope.takenNames table ∧
    ∃ number, state.names.temps ≤ number ∧ number < after.names.temps ∧ name = tempName number

/-- All variables but new temporaries are kept. -/
def Kept (table : SymbolTable) (state after : LoweringState)
    (before now : String → Val Scalar) : Prop :=
  ∀ name, ¬ IsNew table state after name → now name = before name

theorem Kept.refl (state after : LoweringState) (env : String → Val Scalar) :
    Kept table state after env env :=
  fun _ _ => rfl

theorem Kept.trans {state middle after : LoweringState} {before between now : String → Val Scalar}
    (first : Kept table state middle before between)
    (second : Kept table middle after between now)
    (growsFirst : state.Extends middle) (growsSecond : middle.Extends after) :
    Kept table state after before now := by
  intro name old
  have oldFirst : ¬ IsNew table state middle name := by
    rintro ⟨free, number, lower, upper, nameEq⟩
    exact old ⟨free, number, lower, Nat.lt_of_lt_of_le upper growsSecond.temps, nameEq⟩
  have oldSecond : ¬ IsNew table middle after name := by
    rintro ⟨free, number, lower, upper, nameEq⟩
    exact old ⟨growsFirst.takenNames_eq ▸ free, number, growsFirst.temps.trans lower, upper, nameEq⟩
  rw [second name oldSecond, first name oldFirst]

theorem kept_assignVariable (state : LoweringState) (ty : Ty) (env : String → Val Scalar)
    (value : Val Scalar) :
    Kept table state (state.withTemp table ty) env
      (assignVariable env (tempName (state.tempNumber table)) value) := by
  intro name old
  refine assignVariable_other env value ?_
  rintro rfl
  exact old ⟨NameSupply.tempName_freeNumber_not_mem _ _, state.tempNumber table,
    state.le_tempNumber table, Nat.lt_succ_self _, rfl⟩

/-- Variables agree with those of the source on all names that are declared. -/
def Agrees (taken : List String) (source env : String → Val Scalar) : Prop :=
  ∀ name ∈ taken, env name = source name

/-- What was declared before code was run still agrees behind it. -/
theorem Agrees.afterwards {state after : LoweringState} {source before now : String → Val Scalar}
    (agrees : Agrees (state.scope.takenNames table) source before)
    (kept : Kept table state after before now) :
    Agrees (state.scope.takenNames table) source now := by
  intro name taken
  rw [kept name (fun new => new.1 taken), agrees name taken]

theorem Agrees.kept {state after : LoweringState} {source before now : String → Val Scalar}
    (agrees : Agrees (state.scope.takenNames table) source before)
    (kept : Kept table state after before now) (grows : state.Extends after) :
    Agrees (after.scope.takenNames table) source now :=
  grows.takenNames_eq ▸ agrees.afterwards kept

/-! ## Operands -/

/-- An operand holds a value, whatever the memory. -/
def Holds (world : World Scalar) (env : String → Val Scalar) (operand : Value)
    (value : Val Scalar) : Prop :=
  ∀ memory, operand.read world false ⟨env, memory⟩ = .ok value

/-- Operands hold values one by one. -/
def HoldAll (world : World Scalar) (env : String → Val Scalar) :
    List Value → List (Val Scalar) → Prop :=
  List.Forall₂ (Holds world env)

@[simp] theorem accept_unchecked {S : Type} (ty : Ty) (value : Val S) :
    accept false ty value = .ok value := by
  simp [accept]

@[simp] theorem acceptAll_unchecked {S : Type} (tys : List Ty) (values : List (Val S)) :
    acceptAll false tys values = .ok () := by
  induction tys generalizing values with
  | nil => rfl
  | cons ty rest ih =>
      cases values with
      | nil => rfl
      | cons value values =>
          simp only [acceptAll, accept_unchecked]
          exact ih values

/-- A settled operand keeps its value. -/
theorem Holds.kept {state after : LoweringState} {before now : String → Val Scalar}
    {operand : Value} {value : Val Scalar} (holds : Holds world before operand value)
    (settled : Settled table state operand) (kept : Kept table state after before now) :
    Holds world now operand value := by
  intro memory
  rw [← holds memory]
  cases settled with
  | const constant => rfl
  | self ty => rfl
  | @declared name ty taken =>
      simp only [Value.read, accept_unchecked]
      rw [kept name fun new => new.1 taken]
  | @temp number ty given =>
      simp only [Value.read, accept_unchecked]
      rw [kept (tempName number)]
      rintro ⟨_, other, lower, _, nameEq⟩
      have numberEq := tempName_inj.mp nameEq
      omega

theorem HoldAll.kept {state after : LoweringState} {before now : String → Val Scalar}
    {operands : List Value} {values : List (Val Scalar)}
    (holds : HoldAll world before operands values)
    (settled : ∀ operand ∈ operands, Settled table state operand)
    (kept : Kept table state after before now) : HoldAll world now operands values := by
  induction holds with
  | nil => exact .nil
  | cons first _ ih =>
      exact .cons (first.kept (settled _ List.mem_cons_self) kept)
        (ih fun operand among => settled operand (List.mem_cons_of_mem _ among))

theorem Holds.fetch_apply {operand : Value} {value : Val Scalar}
    (holds : Holds world env operand value) (memory : Memory Scalar) :
    operand.fetch world false ⟨env, memory⟩ = .ok value ⟨env, memory⟩ := by
  rw [Value.fetch, bind_of_ok (get_apply _), holds memory]
  rfl

theorem HoldAll.readAll_eq {operands : List Value} {values : List (Val Scalar)}
    (holds : HoldAll world env operands values) (memory : Memory Scalar) :
    readAll world false ⟨env, memory⟩ operands = .ok values := by
  induction holds with
  | nil => rfl
  | cons first _ ih =>
      rw [readAll, first memory, ih]
      rfl

theorem holds_selfValue : Holds world env (selfValue table) (.ref world.self) := fun _ => rfl

theorem holds_var (name : String) (ty : Ty) :
    Holds world env (.var name ty) (env name) := fun _ => by simp [Value.read]

theorem holds_nextTemp (state : LoweringState) (ty : Ty) (value : Val Scalar) :
    Holds world (assignVariable env (tempName (state.tempNumber table)) value)
      (state.nextTemp table ty) value :=
  fun _ => by simp [LoweringState.nextTemp, Value.read]

theorem holds_int (value : Int32) : Holds world env (.int value) (.int value) :=
  fun _ => rfl

theorem write_var_apply (name : String) (ty : Ty) (value : Val Scalar) (state : State Scalar) :
    (Value.var name ty).write false value state =
      .ok () { state with env := assignVariable state.env name value } := by
  simp only [Value.write, accept_unchecked]
  rfl

theorem write_nextTemp_apply (lowering : LoweringState) (ty : Ty) (value : Val Scalar)
    (state : State Scalar) :
    (lowering.nextTemp table ty).write false value state =
      .ok () ⟨assignVariable state.env (tempName (lowering.tempNumber table)) value,
        state.memory⟩ := by
  simp only [LoweringState.nextTemp, Value.write, accept_unchecked]
  rfl

/-- One instruction that acts on the memory and leaves the result in a declared
variable. -/
theorem Computes.intoVariable {name : String} {ty : Ty} {instr : Instr}
    {action : Action (Memory Scalar) (Val Scalar)}
    (effectEq : ∀ memory, instr.effect world false ⟨env, memory⟩ =
      (do
        let value ← onMemory action
        (Value.var name ty).write false value) ⟨env, memory⟩) :
    Computes world env [instr] action
      (fun value last => last = assignVariable env name value) := by
  refine .single fun memory => ?_
  rw [effectEq, bind_apply, bind_apply, onMemory]
  cases action memory with
  | ok value after => exact write_var_apply name ty value _
  | error reason after => rfl

/-- One instruction that acts on the memory and leaves the result in a new
temporary. -/
theorem Computes.intoTemp {state : LoweringState} {ty : Ty} {instr : Instr}
    {action : Action (Memory Scalar) (Val Scalar)}
    (effectEq : ∀ memory, instr.effect world false ⟨env, memory⟩ =
      (do
        let value ← onMemory action
        (state.nextTemp table ty).write false value) ⟨env, memory⟩) :
    Computes world env [instr] action (fun value last =>
      Kept table state (state.withTemp table ty) env last ∧
        Holds world last (state.nextTemp table ty) value) := by
  have computes : Computes world env [instr] action (fun value last =>
      last = assignVariable env (tempName (state.tempNumber table)) value) := by
    refine .single fun memory => ?_
    rw [effectEq, bind_apply, bind_apply, onMemory]
    cases action memory with
    | ok value after => exact write_nextTemp_apply state ty value _
    | error reason after => rfl
  refine computes.mono ?_
  rintro value last rfl
  exact ⟨kept_assignVariable state ty env value, holds_nextTemp state ty value⟩

end ClassCompiler.ThreeAddress
