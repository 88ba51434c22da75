import ClassCompiler.Proofs.Effects
import ClassCompiler.Proofs.Emission.Code
import Mathlib.Tactic.Tauto

/-!
# Emitting values

The account that an emission keeps is that of its code. Each operation succeeds
exactly if there is code, and then adds the lines, moves the depth, and raises the
greatest depth to what the code needs.
-/

namespace ClassCompiler.StackCode

open Effects Emission
open ThreeAddress (Value)

/-! ## Frames -/

namespace Frame

variable {ι : Type}

/-- The frame after more lines, at another depth, and after a depth that was reached
on the way. -/
def add (frame : Frame ι) (lines : List (Line ι)) (depth reached : Nat) : Frame ι :=
  { frame with
    lines := frame.lines ++ lines.toArray
    depth := depth
    maxDepth := max frame.maxDepth reached }

@[simp] theorem depth_add (frame : Frame ι) (lines : List (Line ι)) (depth reached : Nat) :
    (frame.add lines depth reached).depth = depth := rfl

@[simp] theorem add_add (frame : Frame ι) (first second : List (Line ι))
    (depth reached later highest : Nat) :
    (frame.add first depth reached).add second later highest =
      frame.add (first ++ second) later (max reached highest) := by
  simp [add, Nat.max_assoc]

theorem add_congr {frame : Frame ι} {first second : List (Line ι)}
    {depth later reached highest : Nat} (linesEq : first = second) (depthEq : depth = later)
    (reachedEq : reached = highest) :
    frame.add first depth reached = frame.add second later highest := by
  rw [linesEq, depthEq, reachedEq]

theorem add_nil {frame : Frame ι} {depth reached : Nat} (depthEq : frame.depth = depth)
    (counted : reached ≤ frame.maxDepth) : frame.add [] depth reached = frame := by
  subst depthEq
  simp [add, counted]

/-- A depth that has been reached before does not count. -/
theorem add_of_le {frame : Frame ι} {lines : List (Line ι)} {depth reached : Nat}
    (counted : reached ≤ frame.maxDepth) :
    frame.add lines depth reached = frame.add lines depth 0 := by
  simp [add, counted]

theorem push_eq_add (frame : Frame ι) (count : Nat) :
    frame.push count = frame.add [] (frame.depth + count) (frame.depth + count) := by
  simp [push, add]

theorem emit_eq_add (frame : Frame ι) (instr : ι) :
    frame.emit instr = frame.add [.instr instr] frame.depth 0 := by
  simp [emit, add]

theorem emitLabel_eq_add (frame : Frame ι) (name : String) :
    frame.emitLabel name = frame.add [.label name] frame.depth 0 := by
  simp [emitLabel, add]

/-- The slots are those of the names, each at its first position. -/
def Gives (frame : Frame ι) (names : List String) : Prop :=
  ∀ name, frame.slots[name]? = if name ∈ names then some (names.idxOf name) else none

theorem Gives.add {frame : Frame ι} {names : List String} (gives : frame.Gives names)
    (lines : List (Line ι)) (depth reached : Nat) :
    (frame.add lines depth reached).Gives names :=
  gives

end Frame

theorem Emitter.add_congr {frame : Frame Instr} {counts : ComparisonCounts}
    {first second : Lines} {depth later reached highest : Nat} (linesEq : first = second)
    (depthEq : depth = later) (reachedEq : reached = highest) :
    (⟨frame.add first depth reached, counts⟩ : Emitter) =
      ⟨frame.add second later highest, counts⟩ := by
  rw [linesEq, depthEq, reachedEq]

/-! ## Emissions that succeed -/

theorem eq_of_attempt_eq_ok {α : Type} {result : Except CompileError α} {value : α}
    {emitter after : Emitter} (run : attempt result emitter = .ok value after) :
    result = .ok value ∧ emitter = after := by
  cases result with
  | error error => cases run
  | ok found =>
      cases run
      exact ⟨rfl, rfl⟩

/-- An emission succeeds exactly under a condition, and then with one result and in
one state. -/
def Succeeds {α : Type} (action : Emission α) (emitter : Emitter) (condition : Prop) (result : α)
    (last : Emitter) : Prop :=
  ∀ found after, action emitter = .ok found after ↔ condition ∧ found = result ∧ after = last

namespace Succeeds

variable {α β : Type} {emitter middle last : Emitter} {condition later : Prop}

theorem pure (value : α) (emitter : Emitter) :
    Succeeds (Pure.pure value) emitter True value emitter := by
  intro found after
  rw [pure_apply, EStateM.Result.ok.injEq, true_and, eq_comm, @eq_comm _ emitter]

theorem attempt {result : Except CompileError α} {value : α}
    (succeeds : ∀ found, result = .ok found ↔ condition ∧ found = value) (emitter : Emitter) :
    Succeeds (Emission.attempt result) emitter condition value emitter := by
  intro found after
  rw [← and_assoc, ← succeeds found]
  cases result with
  | ok value => rw [Emission.attempt, pure_apply, EStateM.Result.ok.injEq, Except.ok.injEq,
      @eq_comm _ emitter]
  | error error => simp [Emission.attempt, throw_apply]

/-- Emissions one after the other need both conditions. -/
theorem bind {action : Emission α} {next : α → Emission β} {value : α} {result : β}
    (first : Succeeds action emitter condition value middle)
    (second : Succeeds (next value) middle later result last) :
    Succeeds (action >>= next) emitter (condition ∧ later) result last := by
  intro found after
  rw [bind_eq_ok_iff]
  constructor
  · rintro ⟨_, _, firstEq, secondEq⟩
    rcases (first _ _).mp firstEq with ⟨holds, rfl, rfl⟩
    rcases (second _ _).mp secondEq with ⟨holdsLater, rfl, rfl⟩
    exact ⟨⟨holds, holdsLater⟩, rfl, rfl⟩
  · rintro ⟨⟨holds, holdsLater⟩, rfl, rfl⟩
    exact ⟨value, middle, (first _ _).mpr ⟨holds, rfl, rfl⟩,
      (second _ _).mpr ⟨holdsLater, rfl, rfl⟩⟩

/-- An emission that fails succeeds under no condition. -/
theorem throw {error : CompileError} {result : α} (impossible : ¬condition) :
    Succeeds (MonadExcept.throw error) emitter condition result last := by
  intro found after
  simp [throw_apply, impossible]

/-- The same emission under an equivalent condition. -/
theorem congr {action : Emission α} {result : α} {other : Emitter}
    (succeeds : Succeeds action emitter condition result last) (same : condition ↔ later)
    (lastEq : later → last = other) : Succeeds action emitter later result other := by
  intro found after
  rw [succeeds found after, same]
  constructor
  · rintro ⟨holds, rfl, rfl⟩
    exact ⟨holds, rfl, lastEq holds⟩
  · rintro ⟨holds, rfl, rfl⟩
    exact ⟨holds, rfl, (lastEq holds).symm⟩

end Succeeds

section

variable {frame : Frame Instr} {names : List String} {counts : ComparisonCounts}

theorem succeeds_modifyFrame (change : Frame Instr → Frame Instr) :
    Succeeds (modifyFrame change) ⟨frame, counts⟩ True () ⟨change frame, counts⟩ := by
  intro found after
  rw [modifyFrame, modify_apply, EStateM.Result.ok.injEq, true_and, @eq_comm _ after]

theorem succeeds_emit (instr : Instr) :
    Succeeds (emit instr) ⟨frame, counts⟩ True ()
      ⟨frame.add [.instr instr] frame.depth 0, counts⟩ := by
  rw [← Frame.emit_eq_add]
  exact succeeds_modifyFrame _

theorem succeeds_emitLabel (name : String) :
    Succeeds (emitLabel name) ⟨frame, counts⟩ True ()
      ⟨frame.add [.label name] frame.depth 0, counts⟩ := by
  rw [← Frame.emitLabel_eq_add]
  exact succeeds_modifyFrame _

theorem succeeds_push (count : Nat) :
    Succeeds (push count) ⟨frame, counts⟩ True ()
      ⟨frame.add [] (frame.depth + count) (frame.depth + count), counts⟩ := by
  rw [← Frame.push_eq_add]
  exact succeeds_modifyFrame _

theorem succeeds_pop (count : Nat) :
    Succeeds (pop count) ⟨frame, counts⟩ (count ≤ frame.depth) ()
      ⟨frame.add [] (frame.depth - count) 0, counts⟩ := by
  intro found after
  rw [pop, bind_of_ok (get_apply _), bind_apply]
  by_cases enough : count ≤ frame.depth
  · simp [Frame.pop, enough, Emission.attempt, pure_apply, set_apply, Frame.add, eq_comm]
  · simp [Frame.pop, enough, Emission.attempt, throw_apply]

theorem succeeds_slot (gives : frame.Gives names) (name : String) :
    Succeeds (Emission.slot name) ⟨frame, counts⟩ (name ∈ names) (names.idxOf name)
      ⟨frame, counts⟩ := by
  intro found after
  rw [Emission.slot, bind_of_ok (get_apply _), Frame.slot, gives name]
  by_cases member : name ∈ names
  · simp [member, Emission.attempt, pure_apply, eq_comm]
  · simp [member, Emission.attempt, throw_apply]

/-! ## Selection by type -/

theorem loadInstr_eq_ok_iff (ty : Ty) (slot : Nat) (instr : Instr) :
    loadInstr ty slot = .ok instr ↔
      ty.isVoid = false ∧ instr = .load (valueCategory ty) slot := by
  rw [loadInstr, categoryOf, valueCategory, @eq_comm _ instr]
  cases ty.isVoid <;> simp [bind, Except.bind, pure, Except.pure]

theorem storeInstr_eq_ok_iff (ty : Ty) (slot : Nat) (instr : Instr) :
    storeInstr ty slot = .ok instr ↔
      ty.isVoid = false ∧ instr = .store (valueCategory ty) slot := by
  rw [storeInstr, categoryOf, valueCategory, @eq_comm _ instr]
  cases ty.isVoid <;> simp [bind, Except.bind, pure, Except.pure]

/-! ## Pushing and popping values -/

/-- The frame after a value has been pushed. -/
def Frame.load (frame : Frame Instr) (names : List String) (value : Value) : Frame Instr :=
  frame.add (loadCode names value) (frame.depth + 1) (frame.depth + loadHeight value)

theorem Frame.Gives.load (gives : frame.Gives names) (value : Value) :
    (frame.load names value).Gives names :=
  gives

theorem succeeds_emit_push (instr : Instr) :
    Succeeds (do emit instr; push 1) ⟨frame, counts⟩ True ()
      ⟨frame.add [.instr instr] (frame.depth + 1) (frame.depth + 1), counts⟩ := by
  refine ((succeeds_emit instr).bind (succeeds_push 1)).congr (and_self_iff) fun _ => ?_
  simp

theorem succeeds_loadVariable {condition : Prop} {name : String} {slot : Nat}
    (found : Succeeds (Emission.slot name) ⟨frame, counts⟩ condition slot ⟨frame, counts⟩)
    (ty : Ty) :
    Succeeds (do
        emit (← attempt (loadInstr ty (← Emission.slot name)))
        push 1)
      ⟨frame, counts⟩ (condition ∧ ty.isVoid = false) ()
      ⟨frame.add [.instr (.load (valueCategory ty) slot)] (frame.depth + 1) (frame.depth + 1),
        counts⟩ := by
  refine (found.bind ((Succeeds.attempt (loadInstr_eq_ok_iff ty _) _).bind
    (succeeds_emit_push _))).congr ?_ fun _ => rfl
  rw [and_true]

theorem succeeds_loadValue (gives : frame.Gives names) (value : Value) :
    Succeeds (loadValue value) ⟨frame, counts⟩ (Loadable names value) ()
      ⟨frame.load names value, counts⟩ := by
  induction value generalizing frame with
  | const constant => cases constant <;> exact succeeds_emit_push _
  | self ty => exact succeeds_emit_push _
  | temp name ty | var name ty => exact succeeds_loadVariable (succeeds_slot gives name) ty
  | classRef name => exact .throw id
  | element array position ty arraySucceeds positionSucceeds =>
      refine ((arraySucceeds gives).bind ((positionSucceeds (gives.load array)).bind
        ((succeeds_emit _).bind ((succeeds_pop 2).bind (succeeds_push 1))))).congr ?_ fun _ => ?_
      · simp [Loadable, Frame.load]
      · simp only [Frame.load, Frame.add_add, Frame.depth_add]
        exact Emitter.add_congr (by simp [loadCode]) (by omega) (by rw [loadHeight]; omega)

/-- The frame after values have been pushed. -/
def Frame.loads (frame : Frame Instr) (names : List String) (values : List Value) : Frame Instr :=
  frame.add (loadsCode names values) (frame.depth + values.length)
    (frame.depth + loadsHeight values)

theorem Frame.Gives.loads (gives : frame.Gives names) (values : List Value) :
    (frame.loads names values).Gives names :=
  gives

theorem Frame.loads_cons (frame : Frame Instr) (names : List String) (value : Value)
    (rest : List Value) :
    frame.loads names (value :: rest) = (frame.load names value).loads names rest := by
  rw [Frame.loads, Frame.loads, Frame.load, Frame.add_add, Frame.depth_add]
  refine Frame.add_congr rfl ?_ ?_
  · rw [List.length_cons]
    omega
  · rw [loadsHeight]
    omega

theorem succeeds_loadValues (gives : frame.Gives names) (counted : frame.depth ≤ frame.maxDepth)
    (values : List Value) :
    Succeeds (loadValues values) ⟨frame, counts⟩ (∀ value ∈ values, Loadable names value) ()
      ⟨frame.loads names values, counts⟩ := by
  induction values generalizing frame with
  | nil =>
      refine (Succeeds.pure () _).congr (by simp) fun _ => ?_
      exact congrArg (Emitter.mk · counts) (Frame.add_nil rfl counted).symm
  | cons value rest ih =>
      have countedLoad : (frame.load names value).depth ≤ (frame.load names value).maxDepth :=
        Nat.le_trans (Nat.add_le_add_left (one_le_loadHeight value) _) (Nat.le_max_right _ _)
      rw [Frame.loads_cons]
      exact ((succeeds_loadValue gives value).bind
        (ih (gives.load value) countedLoad)).congr (by simp) fun _ => rfl

theorem Frame.depth_loads (empty : frame.depth = 0) (names : List String) (values : List Value) :
    (frame.loads names values).depth = values.length := by
  rw [Frame.loads, Frame.depth_add, empty, Nat.zero_add]

theorem Frame.length_le_maxDepth_loads (frame : Frame Instr) (names : List String)
    (values : List Value) : values.length ≤ (frame.loads names values).maxDepth :=
  Nat.le_trans (length_le_loadsHeight values)
    (Nat.le_trans (Nat.le_add_left _ _) (Nat.le_max_right _ _))

theorem succeeds_storeVariable {condition : Prop} {name : String} {slot : Nat}
    (found : Succeeds (Emission.slot name) ⟨frame, counts⟩ condition slot ⟨frame, counts⟩)
    (ty : Ty) :
    Succeeds (do
        emit (← attempt (storeInstr ty (← Emission.slot name)))
        pop 1)
      ⟨frame, counts⟩ (1 ≤ frame.depth ∧ condition ∧ ty.isVoid = false) ()
      ⟨frame.add [.instr (.store (valueCategory ty) slot)] (frame.depth - 1) 0, counts⟩ := by
  refine (found.bind ((Succeeds.attempt (storeInstr_eq_ok_iff ty _) _).bind
    ((succeeds_emit _).bind (succeeds_pop 1)))).congr ?_ fun _ => ?_
  · rw [Frame.depth_add]
    tauto
  · rw [Frame.add_add]
    rfl

theorem succeeds_storeValue (gives : frame.Gives names) (dest : Value) :
    Succeeds (storeValue dest) ⟨frame, counts⟩ (1 ≤ frame.depth ∧ Storable names dest) ()
      ⟨frame.add (storeCode names dest) (frame.depth - 1) 0, counts⟩ := by
  cases dest with
  | temp name ty | var name ty => exact succeeds_storeVariable (succeeds_slot gives name) ty
  | const | self | classRef | element =>
      exact .throw fun holds => holds.2

end

end ClassCompiler.StackCode
