import ClassCompiler.Proofs.Emission.Instructions
import ClassCompiler.Proofs.Emission.Operations

/-!
# Increments

A binary operation is emitted as one increment exactly if it adds a constant to an integer
variable, on either side, or subtracts one from it, and the amount fits one byte. The
increment does what the plain code of the operation does: load both operands, apply the
operator to words, store the result.
-/

namespace ClassCompiler.StackCode

open Semantics Effects Emission
open ThreeAddress (Value)

/-! ## Operations that are increments -/

/-- An operation changes a variable by an amount: it adds a constant to it, on either side,
or subtracts one from it. -/
inductive ChangesBy (name : String) : BinaryOp → Value → Value → Int → Prop where
  | add {operand : Value} (isVariable : operand.varName? = some name) (constant : Int32) :
      ChangesBy name (.arith .add) operand (.int constant) constant.toInt
  | addTo {operand : Value} (isVariable : operand.varName? = some name) (constant : Int32) :
      ChangesBy name (.arith .add) (.int constant) operand constant.toInt
  | sub {operand : Value} (isVariable : operand.varName? = some name) (constant : Int32) :
      ChangesBy name (.arith .sub) operand (.int constant) (-constant.toInt)

/-- An operation changes the integer variable into which its result goes, by an amount of
one byte, and the variable has a slot. -/
structure IsIncrement (frame : Frame Instr) (dest : Value) (op : BinaryOp) (left right : Value)
    (name : String) (slot : Nat) (amount : Int) : Prop where
  dest_name : dest.varName? = some name
  dest_ty : dest.ty = Ty.int
  slot_eq : frame.slot name = .ok slot
  changes : ChangesBy name op left right amount
  lower : -128 ≤ amount
  upper : amount ≤ 127

theorem ChangesBy.of_increment? {dest left right : Value} {op : BinaryOp} {name : String}
    {delta : Int8} (found : increment? dest op left right = some (name, delta)) :
    ChangesBy name op left right delta.toInt := by
  rcases increment?_eq_some found with
    ⟨_, _, ⟨leftName, constant, rfl, deltaEq⟩ | ⟨rightName, rfl, constant, rfl, deltaEq⟩⟩
  · rcases toInt_incrementDelta? deltaEq with ⟨rfl, amountEq⟩ | ⟨rfl, amountEq⟩
    · rw [amountEq]
      exact .add leftName constant
    · rw [amountEq]
      exact .sub leftName constant
  · rcases toInt_incrementDelta? deltaEq with ⟨_, amountEq⟩ | ⟨isSub, _⟩
    · rw [amountEq]
      exact .addTo rightName constant
    · cases isSub

/-- An amount of one byte is the amount of an increment. -/
theorem ChangesBy.increment?_eq {dest left right : Value} {op : BinaryOp} {name : String}
    {amount : Int} (changes : ChangesBy name op left right amount)
    (destName : dest.varName? = some name) (destTy : dest.ty = Ty.int) (lower : -128 ≤ amount)
    (upper : amount ≤ 127) :
    increment? dest op left right = some (name, Int8.ofInt amount) := by
  have isInt : dest.ty.isInt = true := by rw [destTy]; rfl
  have fits : -128 ≤ amount ∧ amount ≤ 127 := ⟨lower, upper⟩
  have constantEq (constant : Int32) : (Value.int constant).asInt? = some constant := rfl
  have constantName (constant : Int32) : (Value.int constant).varName? = none := rfl
  cases changes with
  | add isVariable constant => simp [increment?, destName, isInt, isVariable, constantEq,
      incrementDelta?, fits]
  | addTo isVariable constant => simp [increment?, destName, isInt, isVariable, constantEq,
      constantName, incrementDelta?, fits]
  | sub isVariable constant => simp [increment?, destName, isInt, isVariable, constantEq,
      incrementDelta?, fits]

/-! ## Emission -/

/-- The plain code of a binary operation. -/
def emitPlainBinary (dest : Value) (op : BinaryOp) (left right : Value) : Emission Unit := do
  loadValue left
  loadValue right
  emitOperator op
  storeValue dest

theorem emitBinary_of_none {dest left right : Value} {op : BinaryOp}
    (notFound : increment? dest op left right = none) :
    emitBinary dest op left right = emitPlainBinary dest op left right := by
  rw [emitBinary, notFound, emitPlainBinary]

section

variable {frame : Frame Instr} {counts : ComparisonCounts} {name : String} {slot : Nat}
  {dest operand left right : Value} {op : BinaryOp}

theorem succeeds_slot_of_eq (slotEq : frame.slot name = .ok slot) :
    Succeeds (Emission.slot name) ⟨frame, counts⟩ True slot ⟨frame, counts⟩ := by
  intro found after
  rw [Emission.slot, bind_of_ok (get_apply _), slotEq, Emission.attempt, pure_apply,
    EStateM.Result.ok.injEq, true_and, @eq_comm _ found, @eq_comm _ after]

theorem succeeds_increment {delta : Int8}
    (found : increment? dest op left right = some (name, delta))
    (slotEq : frame.slot name = .ok slot) :
    Succeeds (emitBinary dest op left right) ⟨frame, counts⟩ True ()
      ⟨frame.emit (.increment slot delta), counts⟩ := by
  rw [emitBinary, found, Frame.emit_eq_add]
  exact ((succeeds_slot_of_eq slotEq).bind (succeeds_emit _)).congr (and_self_iff) fun _ => rfl

theorem succeeds_loadNamed (isVariable : operand.varName? = some name)
    (slotEq : frame.slot name = .ok slot) :
    Succeeds (loadValue operand) ⟨frame, counts⟩ (True ∧ operand.ty.isVoid = false) ()
      ⟨frame.add [.instr (.load (valueCategory operand.ty) slot)] (frame.depth + 1)
        (frame.depth + 1), counts⟩ := by
  cases operand with
  | temp | var =>
      cases isVariable
      exact succeeds_loadVariable (succeeds_slot_of_eq slotEq) _
  | const | self | classRef | element => cases isVariable

theorem succeeds_storeNamed (isVariable : dest.varName? = some name)
    (slotEq : frame.slot name = .ok slot) :
    Succeeds (storeValue dest) ⟨frame, counts⟩
      (1 ≤ frame.depth ∧ True ∧ dest.ty.isVoid = false) ()
      ⟨frame.add [.instr (.store (valueCategory dest.ty) slot)] (frame.depth - 1) 0, counts⟩ := by
  cases dest with
  | temp | var =>
      cases isVariable
      exact succeeds_storeVariable (succeeds_slot_of_eq slotEq) _
  | const | self | classRef | element => cases isVariable

theorem slot_eq_of_run {emitter after : Emitter}
    (run : Emission.slot name emitter = .ok slot after) : emitter.frame.slot name = .ok slot := by
  rw [Emission.slot, bind_of_ok (get_apply _)] at run
  exact (eq_of_attempt_eq_ok run).1

/-- Only a variable with a slot can be stored into. -/
theorem exists_slot_of_storeValue {emitter after : Emitter}
    (run : storeValue dest emitter = .ok () after) :
    ∃ name slot, dest.varName? = some name ∧ emitter.frame.slot name = .ok slot := by
  cases dest with
  | temp name ty | var name ty =>
      rcases bind_eq_ok_iff.mp run with ⟨slot, _, slotRun, _⟩
      exact ⟨name, slot, rfl, slot_eq_of_run slotRun⟩
  | const | self | classRef | element => cases run

/-- The plain code of an operation ends in a store, so it is no increment. -/
theorem lines_ne_of_emitPlainBinary {emitter after : Emitter}
    (run : emitPlainBinary dest op left right emitter = .ok () after) (lines : Array (Line Instr))
    (slot : Nat) (delta : Int8) :
    after.frame.lines ≠ lines.push (.instr (.increment slot delta)) := by
  -- Whatever the operands and the operator have emitted, the store comes last.
  rcases bind_eq_ok_iff.mp run with ⟨_, _, _, run⟩
  rcases bind_eq_ok_iff.mp run with ⟨_, _, _, run⟩
  rcases bind_eq_ok_iff.mp run with ⟨_, ⟨frame, counts⟩, _, run⟩
  rcases exists_slot_of_storeValue run with ⟨name, stored, isVariable, slotEq⟩
  rcases (succeeds_storeNamed isVariable slotEq _ _).mp run with ⟨_, _, rfl⟩
  intro same
  have last := congrArg Array.back? same
  simp [Frame.add] at last

/-- Where a variable has a slot, one instruction pushes a value. -/
def LoadedBy (name : String) (slot : Nat) (value : Value) (instr : Instr) : Prop :=
  ∀ (frame : Frame Instr) (counts : ComparisonCounts), frame.slot name = .ok slot →
    Succeeds (loadValue value) ⟨frame, counts⟩ True ()
      ⟨frame.add [.instr instr] (frame.depth + 1) (frame.depth + 1), counts⟩

theorem loadedBy_constant (name : String) (slot : Nat) (constant : Int32) :
    LoadedBy name slot (.int constant) (.pushInt constant) :=
  fun _ _ _ => succeeds_emit_push _

theorem loadedBy_variable (isVariable : operand.varName? = some name) (ty : operand.ty = Ty.int)
    (slot : Nat) : LoadedBy name slot operand (.load .int slot) := by
  intro frame counts slotEq
  refine (succeeds_loadNamed isVariable slotEq).congr ?_ fun _ => ?_
  · rw [ty]
    decide
  · rw [ty]
    rfl

/-- The lines of arithmetic on two operands, up to the store into an integer variable. -/
def plainCode (first second : Instr) (op : ArithOp) (slot : Nat) : Lines :=
  [.instr first, .instr second, .instr (.arith op), .instr (.store .int slot)]

theorem succeeds_emitPlainBinary {first second : Instr} (loadsLeft : LoadedBy name slot left first)
    (loadsRight : LoadedBy name slot right second) (destName : dest.varName? = some name)
    (destTy : dest.ty = Ty.int) (slotEq : frame.slot name = .ok slot) (op : ArithOp) :
    Succeeds (emitPlainBinary dest (.arith op) left right) ⟨frame, counts⟩ True ()
      ⟨frame.add (plainCode first second op slot) frame.depth (frame.depth + 2), counts⟩ := by
  -- The frames after the operands and after the operator, which keep the slots.
  let loaded := frame.add [.instr first] (frame.depth + 1) (frame.depth + 1)
  let both := loaded.add [.instr second] (loaded.depth + 1) (loaded.depth + 1)
  let applied := both.add [.instr (.arith op)] (both.depth - 1) 0
  have counted : both.depth ≤ both.maxDepth := Nat.le_max_right _ _
  have slotLater : applied.slot name = .ok slot := slotEq
  refine ((loadsLeft frame counts slotEq).bind ((loadsRight loaded counts slotEq).bind
    ((succeeds_emitOperator (Nat.le_add_left 2 frame.depth) counted (.arith op)).bind
      (succeeds_storeNamed destName slotLater)))).congr ?_ fun _ => ?_
  · rw [destTy]
    exact iff_true_intro ⟨trivial, trivial, trivial, Nat.le_add_left 1 frame.depth, trivial, rfl⟩
  · rw [destTy]
    simp only [applied, both, loaded, Frame.add_add, Frame.depth_add]
    exact Emitter.add_congr rfl (by omega) (by omega)

end

/-! ## Execution -/

/-- Code takes the machine from one state to another, wherever it stands. -/
def Transforms (code : Lines) (machine last : Machine) : Prop :=
  ∀ (answer : List LinkedCall → Heap → Answer) (checked : Bool) (body : Lines) (place : Nat),
    PlacedAt code place body →
    ∃ count, Steps (step answer checked body) count ⟨place, machine⟩ ⟨place + code.length, last⟩

namespace Transforms

variable {code : Lines} {machine middle last : Machine} {instr : Instr}

theorem nil (machine : Machine) : Transforms [] machine machine :=
  fun _ _ _ place _ => ⟨0, .refl (Position.mk place machine)⟩

theorem cons (straight : instr.IsStraight)
    (performs : ∀ answer checked, instr.perform answer checked machine = .ok () middle)
    (rest : Transforms code middle last) : Transforms (.instr instr :: code) machine last := by
  intro answer checked body place placed
  let host : Host := ⟨default, default, body, default, answer, checked⟩
  have found : host.lines[place]? = some (.instr instr) := placed.head
  have first := Host.step_of_isStraight found straight machine
  rw [performs] at first
  rcases rest answer checked body (place + 1) placed.tail with ⟨count, run⟩
  rw [List.length_cons, Nat.add_comm code.length, ← Nat.add_assoc]
  exact ⟨count + 1, .head first run⟩

end Transforms

theorem accept_int (checked : Bool) (value : Word) :
    Category.accept checked .int (.scalar value) = .ok (.scalar value) := by
  simp [Category.accept, Val.isScalar]

/-- An instruction pushes an integer while a slot holds another. -/
structure Pushes (instr : Instr) (slot : Nat) (held pushed : Word) : Prop where
  straight : instr.IsStraight
  performs : ∀ answer checked (machine : Machine), machine.slots slot = .scalar held →
    instr.perform answer checked machine =
      .ok () { machine with stack := .scalar pushed :: machine.stack }

theorem pushes_load (slot : Nat) (value : Word) : Pushes (.load .int slot) slot value value := by
  refine ⟨trivial, fun answer checked machine held => ?_⟩
  rw [Instr.perform, bind_of_ok (get_apply _), held, accept_int, bind_of_ok (attempt_ok _ _)]
  rfl

theorem pushes_pushInt (slot : Nat) (held constant : Word) :
    Pushes (.pushInt constant) slot held constant :=
  ⟨trivial, fun _ _ _ _ => rfl⟩

theorem perform_arith {op : ArithOp} {left right value : Word}
    (result : evalArith op left right = .ok value) (answer : List LinkedCall → Heap → Answer)
    (checked : Bool) (stack : List (Val Word)) (slots : Nat → Val Word)
    (memory : Store LinkedCall) :
    (Instr.arith op).perform answer checked
        ⟨.scalar right :: .scalar left :: stack, slots, memory⟩ =
      .ok () ⟨.scalar value :: stack, slots, memory⟩ := by
  simp only [Instr.perform, combine, bind_apply, popOperand, result, attempt_ok]
  rfl

theorem perform_store (answer : List LinkedCall → Heap → Answer) (checked : Bool) (slot : Nat)
    (value : Word) (machine : Machine) :
    (Instr.store .int slot).perform answer checked
        { machine with stack := .scalar value :: machine.stack } =
      .ok () (machine.setSlot slot (.scalar value)) := by
  simp only [Instr.perform, bind_apply, popOperand, accept_int, attempt_ok]
  rfl

/-- The plain code changes the slot to the result of the arithmetic. -/
theorem transforms_plainCode {first second : Instr} {op : ArithOp} {slot : Nat}
    {held left right value : Word} (pushesLeft : Pushes first slot held left)
    (pushesRight : Pushes second slot held right) (result : evalArith op left right = .ok value)
    {machine : Machine} (heldEq : machine.slots slot = .scalar held) :
    Transforms (plainCode first second op slot) machine (machine.setSlot slot (.scalar value)) := by
  have stores : Transforms [.instr (.store .int slot)]
      { machine with stack := .scalar value :: machine.stack }
      (machine.setSlot slot (.scalar value)) :=
    .cons trivial (fun _ _ => perform_store _ _ slot value machine) (.nil _)
  refine .cons pushesLeft.straight (fun _ _ => pushesLeft.performs _ _ machine heldEq) ?_
  refine .cons pushesRight.straight (fun _ _ => pushesRight.performs _ _ _ heldEq) ?_
  exact .cons trivial (fun _ _ => perform_arith result _ _ machine.stack machine.slots _) stores

/-- An increment changes the slot by its amount. -/
theorem transforms_increment {slot : Nat} {held : Word} {machine : Machine}
    (heldEq : machine.slots slot = .scalar held) (delta : Int8) :
    Transforms [.instr (.increment slot delta)] machine
      (machine.setSlot slot (.scalar (.ofInt (held.toInt + delta.toInt)))) := by
  refine .cons trivial (fun answer checked => ?_) (.nil _)
  rw [Instr.perform, bind_of_ok (get_apply _), heldEq, Int32.ofInt_add, Int32.ofInt_toInt]
  rfl

/-! ## Both ways to change a variable -/

/-- The plain code of an operation on integers that changes a variable by an amount. -/
theorem ChangesBy.exists_plainCode {frame : Frame Instr} {dest left right : Value} {op : BinaryOp}
    {name : String} {slot : Nat} {amount : Int} (changes : ChangesBy name op left right amount)
    (destName : dest.varName? = some name) (destTy : dest.ty = Ty.int)
    (slotEq : frame.slot name = .ok slot) (leftTy : left.ty = Ty.int) (rightTy : right.ty = Ty.int)
    (counts : ComparisonCounts) :
    ∃ first second arith,
      op = .arith arith ∧
      Succeeds (emitPlainBinary dest op left right) ⟨frame, counts⟩ True ()
        ⟨frame.add (plainCode first second arith slot) frame.depth (frame.depth + 2), counts⟩ ∧
      ∀ machine held, machine.slots slot = .scalar held →
        Transforms (plainCode first second arith slot) machine
          (machine.setSlot slot (.scalar (.ofInt (held.toInt + amount)))) := by
  cases changes with
  | add isVariable constant =>
      refine ⟨.load .int slot, .pushInt constant, .add, rfl,
        succeeds_emitPlainBinary (loadedBy_variable isVariable leftTy slot)
          (loadedBy_constant name slot constant) destName destTy slotEq .add, ?_⟩
      intro machine held heldEq
      rw [Int32.ofInt_add, Int32.ofInt_toInt, Int32.ofInt_toInt]
      exact transforms_plainCode (pushes_load slot held)
        (pushes_pushInt slot held constant) rfl heldEq
  | addTo isVariable constant =>
      refine ⟨.pushInt constant, .load .int slot, .add, rfl,
        succeeds_emitPlainBinary (loadedBy_constant name slot constant)
          (loadedBy_variable isVariable rightTy slot) destName destTy slotEq .add, ?_⟩
      intro machine held heldEq
      rw [Int.add_comm, Int32.ofInt_add, Int32.ofInt_toInt, Int32.ofInt_toInt]
      exact transforms_plainCode (pushes_pushInt slot held constant)
        (pushes_load slot held) rfl heldEq
  | sub isVariable constant =>
      refine ⟨.load .int slot, .pushInt constant, .sub, rfl,
        succeeds_emitPlainBinary (loadedBy_variable isVariable leftTy slot)
          (loadedBy_constant name slot constant) destName destTy slotEq .sub, ?_⟩
      intro machine held heldEq
      rw [← Int.sub_eq_add_neg, Int32.ofInt_sub, Int32.ofInt_toInt, Int32.ofInt_toInt]
      exact transforms_plainCode (pushes_load slot held)
        (pushes_pushInt slot held constant) rfl heldEq

/-- An operation is emitted as one increment exactly if it changes the integer variable into
which its result goes by an amount of one byte. -/
theorem emitsIncrement_iff (emitter : Emitter) (dest : Value) (op : BinaryOp)
    (left right : Value) :
    (∃ slot delta after, emitBinary dest op left right emitter = .ok () after ∧
        after.frame.lines = emitter.frame.lines.push (.instr (.increment slot delta))) ↔
      ∃ name slot amount, IsIncrement emitter.frame dest op left right name slot amount := by
  constructor
  · rintro ⟨slot, delta, after, run, lines⟩
    cases found : increment? dest op left right with
    | none =>
        rw [emitBinary_of_none found] at run
        exact absurd lines (lines_ne_of_emitPlainBinary run _ slot delta)
    | some increment =>
        rcases increment with ⟨name, delta⟩
        rw [emitBinary, found] at run
        rcases bind_eq_ok_iff.mp run with ⟨slot, _, slotRun, _⟩
        rcases increment?_eq_some found with ⟨destName, destTy, _⟩
        exact ⟨name, slot, delta.toInt, destName, by simpa [Ty.isInt] using destTy,
          slot_eq_of_run slotRun, .of_increment? found, delta.le_toInt,
          Int.le_of_lt_add_one delta.toInt_lt⟩
  · rintro ⟨name, slot, amount, increments⟩
    have found := increments.changes.increment?_eq increments.dest_name increments.dest_ty
      increments.lower increments.upper
    exact ⟨slot, _, _, (succeeds_increment found increments.slot_eq _ _).mpr
      ⟨trivial, rfl, rfl⟩, rfl⟩

/-- An operation is emitted as one increment exactly if it changes the integer variable into
which its result goes by an amount of one byte. If its operands are integers, the increment
does to the machine what the plain code does: it adds the amount to the slot, as words are
added, and leaves the rest as it was. -/
theorem emitBinary_increments (emitter : Emitter) (dest : Value) (op : BinaryOp)
    (left right : Value) :
    ((∃ slot delta after, emitBinary dest op left right emitter = .ok () after ∧
        after.frame.lines = emitter.frame.lines.push (.instr (.increment slot delta))) ↔
      ∃ name slot amount, IsIncrement emitter.frame dest op left right name slot amount) ∧
    ∀ name slot amount, IsIncrement emitter.frame dest op left right name slot amount →
      emitBinary dest op left right emitter =
        .ok () { emitter with frame := emitter.frame.emit (.increment slot (.ofInt amount)) } ∧
      (left.ty = Ty.int → right.ty = Ty.int →
        ∃ first second arith, op = .arith arith ∧
          emitPlainBinary dest op left right emitter =
            .ok () { emitter with
              frame := emitter.frame.add (plainCode first second arith slot) emitter.frame.depth
                (emitter.frame.depth + 2) } ∧
          ∀ machine held, machine.slots slot = .scalar held →
            Transforms [.instr (.increment slot (.ofInt amount))] machine
              (machine.setSlot slot (.scalar (.ofInt (held.toInt + amount)))) ∧
            Transforms (plainCode first second arith slot) machine
              (machine.setSlot slot (.scalar (.ofInt (held.toInt + amount))))) := by
  refine ⟨emitsIncrement_iff emitter dest op left right, fun name slot amount increments => ?_⟩
  have found := increments.changes.increment?_eq increments.dest_name increments.dest_ty
    increments.lower increments.upper
  refine ⟨(succeeds_increment found increments.slot_eq _ _).mpr ⟨trivial, rfl, rfl⟩,
    fun leftTy rightTy => ?_⟩
  obtain ⟨first, second, arith, opEq, succeeds, transforms⟩ :=
    increments.changes.exists_plainCode increments.dest_name increments.dest_ty
      increments.slot_eq leftTy rightTy emitter.comparisons
  refine ⟨first, second, arith, opEq, (succeeds _ _).mpr ⟨trivial, rfl, rfl⟩,
    fun machine held heldEq => ⟨?_, transforms machine held heldEq⟩⟩
  have amountEq : (Int8.ofInt amount).toInt = amount :=
    Int8.toInt_ofInt_of_le increments.lower (Int.lt_add_one_of_le increments.upper)
  have changed := transforms_increment heldEq (.ofInt amount)
  rwa [amountEq] at changed

/-- A frame in which a counter has a slot. -/
def counterEmitter : Emitter :=
  ⟨{ method := "count", slots := (∅ : Std.HashMap String Nat).insert "i" 2 }, {}⟩

theorem slot_counterEmitter : counterEmitter.frame.slot "i" = .ok 2 := by
  simp [Frame.slot, counterEmitter]

/-- The least amount of one byte, at the end of the range of words. -/
theorem emitBinary_increments_least :
    ∃ first second,
      emitBinary (.var "i" Ty.int) (.arith .sub) (.var "i" Ty.int) (.int 128) counterEmitter =
        .ok () { counterEmitter with
          frame := counterEmitter.frame.emit (.increment 2 (-128)) } ∧
      ∀ machine : Machine, machine.slots 2 = .scalar (-2147483648) →
        Transforms [.instr (.increment 2 (-128))] machine
          (machine.setSlot 2 (.scalar 2147483520)) ∧
        Transforms (plainCode first second .sub 2) machine
          (machine.setSlot 2 (.scalar 2147483520)) := by
  have increments : IsIncrement counterEmitter.frame (.var "i" Ty.int) (.arith .sub)
      (.var "i" Ty.int) (.int 128) "i" 2 (-128) :=
    ⟨rfl, rfl, slot_counterEmitter, .sub rfl 128, by decide, by decide⟩
  obtain ⟨emitted, plain⟩ := (emitBinary_increments counterEmitter (.var "i" Ty.int) (.arith .sub)
    (.var "i" Ty.int) (.int 128)).2 "i" 2 (-128) increments
  obtain ⟨first, second, _, opEq, _, transforms⟩ := plain rfl rfl
  cases opEq
  exact ⟨first, second, emitted, fun machine held => transforms machine _ held⟩

end ClassCompiler.StackCode
