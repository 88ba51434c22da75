import ClassCompiler.Proofs.Emission.Linking
import ClassCompiler.Proofs.Semantics.Flow
import ClassCompiler.Proofs.Semantics.Placement

/-!
# Stack code that realizes actions

A state of a method and a state of the machine mirror each other if every variable
is in its slot and the memory is the same, with every call seen as an instruction
makes it. Stack code realizes an action on states of the method if it does the same
on states of the machine that mirror them: it takes operands from the stack, leaves
results there, and aborts when the action does. Such code can be put in sequence.
-/

namespace ClassCompiler.StackCode

open Semantics Effects
open ThreeAddress (Method)

/-- Compute something from the state without changing it. -/
def reading {α : Type} (read : State Word → Except Abort α) : Action (State Word) α := do
  attempt (read (← get))

theorem reading_apply {α : Type} (read : State Word → Except Abort α) (state : State Word) :
    reading read state = attempt (read state) state := rfl

/-- The world in which calls are answered as instructions make them. -/
def linkedWorld (linkage : Linkage) (self : Ref) (answer : List LinkedCall → Heap → Answer) :
    World Word where
  self := self
  path := linkage.paths.classPath
  answer trace heap := answer (trace.map (link linkage)) heap

/-! ## Hosts -/

/-- A method and lines of stack code, with all that a run of either depends on. -/
structure Host where
  linkage : Linkage
  method : Method
  lines : Lines
  self : Ref
  answer : List LinkedCall → Heap → Answer
  checked : Bool

namespace Host

variable (host : Host)

/-- The names with slots, in slot order. -/
def names : List String := slotNames host.method

/-- The world in which the method runs. -/
def world : World Word := linkedWorld host.linkage host.self host.answer

/-- One step of the lines. -/
def step : Position → Progress Position Halt :=
  StackCode.step host.answer host.checked host.lines

/-- A state of the machine mirrors a state of the method. -/
structure Mirrors (state : State Word) (machine : Machine) : Prop where
  slot_eq : ∀ name ∈ host.names, (host.method.isStatic = true ∨ name ≠ "this") →
    machine.slots (host.names.idxOf name) = state.env name
  self_eq : host.method.isStatic = false → machine.slots 0 = .ref host.self
  memory_eq : machine.memory = linkMemory host.linkage state.memory

variable {host}

/-- The operand stack is no part of what is mirrored. -/
theorem Mirrors.withStack {state : State Word} {machine : Machine}
    (mirrors : host.Mirrors state machine) (stack : List (Val Word)) :
    host.Mirrors state { machine with stack } :=
  ⟨mirrors.slot_eq, mirrors.self_eq, mirrors.memory_eq⟩

variable (host)

/-- Lines from a place up to another one realize an action. -/
def Simulates {α : Type} (place stop : Nat) (before : List (Val Word))
    (action : Action (State Word) α) (after : α → List (Val Word)) : Prop :=
  ∀ state machine base, host.Mirrors state machine → machine.stack = before ++ base →
    match action state with
    | .ok value last => ∃ n final, Steps host.step n ⟨place, machine⟩ ⟨stop, final⟩ ∧
        host.Mirrors last final ∧ final.stack = after value ++ base
    | .error reason last => ∃ final, Stops host.step ⟨place, machine⟩ ⟨.aborted reason, final⟩ ∧
        host.Mirrors last final

/-- Code realizes an action wherever it stands. It finds its operands on top of the
stack and leaves its results there. -/
def Realizes {α : Type} (code : Lines) (before : List (Val Word))
    (action : Action (State Word) α) (after : α → List (Val Word)) : Prop :=
  ∀ place, PlacedAt code place host.lines →
    host.Simulates place (place + code.length) before action after

variable {host} {α β : Type} {code first second : Lines} {before : List (Val Word)}
  {action other : Action (State Word) α} {after : α → List (Val Word)}

theorem Realizes.of_eq (realizes : host.Realizes code before action after)
    (same : ∀ state, other state = action state) : host.Realizes code before other after := by
  intro place placed state machine base mirrors stackEq
  rw [same state]
  exact realizes place placed state machine base mirrors stackEq

/-- Values may be left as they are. -/
theorem Realizes.pure (value : α) (afterEq : after value = before) :
    host.Realizes [] before (Pure.pure value) after := by
  intro place _ state machine base mirrors stackEq
  exact ⟨0, machine, .refl _, mirrors, by rw [stackEq, afterEq]⟩

/-- Code realizes an action also above other operands. -/
theorem Realizes.above (realizes : host.Realizes code before action after)
    (below : List (Val Word)) :
    host.Realizes code (before ++ below) action fun value => after value ++ below := by
  intro place placed state machine base mirrors stackEq
  have simulated := realizes place placed state machine (below ++ base) mirrors
    (by rw [stackEq, List.append_assoc])
  simpa only [List.append_assoc] using simulated

/-- Actions one after the other are realized by their code one after the other. The
code behind the first action may rely on its value being a possible one. -/
theorem Realizes.bind_of_ok {next : α → Action (State Word) β} {last : β → List (Val Word)}
    (realizes : host.Realizes first before action after)
    (continues : ∀ value, (∃ state middle, action state = .ok value middle) →
      host.Realizes second (after value) (next value) last) :
    host.Realizes (first ++ second) before (action >>= next) last := by
  intro place placed state machine base mirrors stackEq
  have simulated := realizes place placed.left state machine base mirrors stackEq
  rw [bind_apply]
  cases result : action state with
  | error reason middle =>
      rw [result] at simulated
      exact simulated
  | ok value middle =>
      rw [result] at simulated
      rcases simulated with ⟨m, between, firstSteps, mirrorsBetween, betweenEq⟩
      have simulatedNext := continues value ⟨state, middle, result⟩ _ placed.right middle
        between base
        mirrorsBetween betweenEq
      simp only
      rw [List.length_append, ← Nat.add_assoc]
      cases nextResult : next value middle with
      | error reason lastState =>
          rw [nextResult] at simulatedNext
          rcases simulatedNext with ⟨final, stops, mirrorsFinal⟩
          exact ⟨final, .of_steps firstSteps stops, mirrorsFinal⟩
      | ok result lastState =>
          rw [nextResult] at simulatedNext
          rcases simulatedNext with ⟨n, final, steps, mirrorsFinal, finalEq⟩
          exact ⟨m + n, final, firstSteps.trans steps, mirrorsFinal, finalEq⟩

theorem Realizes.bind {next : α → Action (State Word) β} {last : β → List (Val Word)}
    (realizes : host.Realizes first before action after)
    (continues : ∀ value, host.Realizes second (after value) (next value) last) :
    host.Realizes (first ++ second) before (action >>= next) last :=
  realizes.bind_of_ok fun value _ => continues value

/-- Readings one after the other are realized in the same way. -/
theorem Realizes.read {read : State Word → Except Abort α}
    {next : α → State Word → Except Abort β} {last : β → List (Val Word)}
    (realizes : host.Realizes first before (reading read) after)
    (continues : ∀ value, host.Realizes second (after value) (reading (next value)) last) :
    host.Realizes (first ++ second) before (reading fun state => do next (← read state) state)
      last := by
  refine (realizes.bind continues).of_eq fun state => ?_
  rw [bind_apply, reading_apply, reading_apply]
  cases read state <;> rfl

/-! ## Memory -/

/-- The memory changes alike on both sides. -/
theorem Mirrors.change {state : State Word} {stack : List (Val Word)} {slots : Nat → Val Word}
    {memory : Store LinkedCall} (mirrors : host.Mirrors state ⟨stack, slots, memory⟩)
    {change : Action (Memory Word) α} {linked : Action (Store LinkedCall) α}
    (same : Linked host.linkage change linked) (other : List (Val Word)) :
    match onMemory change state with
    | .ok value last => ∃ changed, linked memory = .ok value changed ∧
        host.Mirrors last ⟨other, slots, changed⟩
    | .error reason last => ∃ changed, linked memory = .error reason changed ∧
        host.Mirrors last ⟨other, slots, changed⟩ := by
  have memoryEq : memory = linkMemory host.linkage state.memory := mirrors.memory_eq
  rw [onMemory, memoryEq, same state.memory]
  cases change state.memory with
  | ok value changed | error reason changed => exact ⟨_, rfl, mirrors.slot_eq, mirrors.self_eq, rfl⟩

/-! ## Single instructions -/

theorem step_of_isStraight {place : Nat} {instr : Instr}
    (atPlace : host.lines[place]? = some (.instr instr)) (straight : instr.IsStraight)
    (machine : Machine) :
    host.step ⟨place, machine⟩ =
      match instr.perform host.answer host.checked machine with
      | .error reason final => .stop ⟨.aborted reason, final⟩
      | .ok _ final => .next ⟨place + 1, final⟩ := by
  rw [step, StackCode.step, atPlace]
  cases instr with
  | goto _ | branch _ _ | ret _ => exact straight.elim
  | _ => rfl

/-- What the machine has performed is what an action has done; its results are above
the rest of the stack. -/
def Matches (host : Host) (performed : EStateM.Result Abort Machine Unit)
    (done : EStateM.Result Abort (State Word) α) (after : α → List (Val Word))
    (base : List (Val Word)) : Prop :=
  match done with
  | .ok value last => ∃ final, performed = .ok () final ∧ host.Mirrors last final ∧
      final.stack = after value ++ base
  | .error reason last => ∃ final, performed = .error reason final ∧ host.Mirrors last final

/-- An instruction realizes an action if performing it does the same. -/
theorem Realizes.instr {instr : Instr} (straight : instr.IsStraight)
    (performs : ∀ state slots memory base, host.Mirrors state ⟨before ++ base, slots, memory⟩ →
      host.Matches (instr.perform host.answer host.checked ⟨before ++ base, slots, memory⟩)
        (action state) after base) :
    host.Realizes [.instr instr] before action after := by
  rintro place placed state ⟨_, slots, memory⟩ base mirrors rfl
  have performed := performs state slots memory base mirrors
  have stepEq := step_of_isStraight placed.head straight ⟨before ++ base, slots, memory⟩
  cases result : action state with
  | ok value last =>
      rw [result] at performed
      rcases performed with ⟨final, performEq, mirrorsFinal, finalEq⟩
      rw [performEq] at stepEq
      exact ⟨1, final, .single stepEq, mirrorsFinal, finalEq⟩
  | error reason last =>
      rw [result] at performed
      rcases performed with ⟨final, performEq, mirrorsFinal⟩
      rw [performEq] at stepEq
      exact ⟨final, .of_stop stepEq, mirrorsFinal⟩

/-- An instruction that computes a value from its operands and the state. -/
theorem Realizes.compute {instr : Instr} (straight : instr.IsStraight)
    {result : State Word → Except Abort (Val Word)}
    (performs : ∀ state slots memory base, host.Mirrors state ⟨before ++ base, slots, memory⟩ →
      match result state with
      | .ok value => instr.perform host.answer host.checked ⟨before ++ base, slots, memory⟩ =
          .ok () ⟨value :: base, slots, memory⟩
      | .error reason => ∃ stack,
          instr.perform host.answer host.checked ⟨before ++ base, slots, memory⟩ =
            .error reason ⟨stack, slots, memory⟩) :
    host.Realizes [.instr instr] before (reading result) fun value => [value] := by
  refine .instr straight fun state slots memory base mirrors => ?_
  have performed := performs state slots memory base mirrors
  rw [reading_apply]
  cases resultEq : result state with
  | ok value =>
      rw [resultEq] at performed
      exact ⟨_, performed, mirrors.withStack _, rfl⟩
  | error reason =>
      rw [resultEq] at performed
      rcases performed with ⟨stack, performEq⟩
      exact ⟨_, performEq, mirrors.withStack _⟩

/-- An instruction that changes the memory. -/
theorem Realizes.change {instr : Instr} (straight : instr.IsStraight)
    {change : Action (Memory Word) α} {linked : Action (Store LinkedCall) α}
    (same : Linked host.linkage change linked)
    (performs : ∀ slots memory base,
      instr.perform host.answer host.checked ⟨before ++ base, slots, memory⟩ =
        match linked memory with
        | .ok value changed => .ok () ⟨after value ++ base, slots, changed⟩
        | .error reason changed => .error reason ⟨base, slots, changed⟩) :
    host.Realizes [.instr instr] before (onMemory change) after := by
  refine .instr straight fun state slots memory base mirrors => ?_
  have performed := performs slots memory base
  have changes := mirrors.change same base
  cases result : onMemory change state with
  | ok value last =>
      rw [result] at changes
      rcases changes with ⟨changed, linkedEq, mirrorsLast⟩
      rw [linkedEq] at performed
      exact ⟨_, performed, mirrorsLast.withStack _, rfl⟩
  | error reason last =>
      rw [result] at changes
      rcases changes with ⟨changed, linkedEq, mirrorsLast⟩
      rw [linkedEq] at performed
      exact ⟨_, performed, mirrorsLast⟩

/-- A constant that is pushed is an operand of the code behind it. -/
theorem Realizes.push {instr : Instr} (straight : instr.IsStraight) {constant : Val Word}
    (pushes : instr.perform host.answer host.checked = pushOperand constant)
    (realizes : host.Realizes code (constant :: before) action after) :
    host.Realizes (.instr instr :: code) before action after := by
  have pushed : host.Realizes [.instr instr] before (Pure.pure () : Action (State Word) Unit)
      fun _ => constant :: before := by
    refine .instr straight fun state slots memory base mirrors => ?_
    rw [pushes]
    exact ⟨_, rfl, mirrors.withStack _, rfl⟩
  exact (pushed.bind fun _ => realizes).of_eq fun _ => rfl

end Host

end ClassCompiler.StackCode
