import ClassCompiler.Proofs.Semantics.ThreeAddress

/-!
# Bodies of methods

A label that is defined once is found at the place of its definition. A step is
determined by the instruction at its place: straight instructions act and go on,
and the others decide where to go on or end the method.
-/

namespace ClassCompiler.ThreeAddress

open Semantics

/-! ## Labels -/

/-- The label an instruction defines. -/
def Instr.label? : Instr → Option String
  | .label name => some name
  | _ => none

/-- The label to which an instruction may jump. -/
def Instr.target? : Instr → Option String
  | .goto target | .branch _ target => some target
  | _ => none

/-- The labels that code defines, with repetitions. -/
def definedLabels (code : Code) : List String := code.filterMap Instr.label?

@[simp] theorem definedLabels_nil : definedLabels [] = [] := rfl

@[simp] theorem definedLabels_cons (instr : Instr) (rest : Code) :
    definedLabels (instr :: rest) = instr.label?.toList ++ definedLabels rest := by
  cases instr <;> rfl

@[simp] theorem definedLabels_append (first second : Code) :
    definedLabels (first ++ second) = definedLabels first ++ definedLabels second :=
  List.filterMap_append

theorem Instr.label?_eq_some {instr : Instr} {name : String} :
    instr.label? = some name ↔ instr = .label name := by
  cases instr <;> simp [Instr.label?]

theorem mem_definedLabels {code : Code} {name : String} :
    name ∈ definedLabels code ↔ Instr.label name ∈ code := by
  simp [definedLabels, Instr.label?_eq_some]

theorem labelPlace?_eq_none {code : Code} {name : String} (absent : name ∉ definedLabels code) :
    Code.labelPlace? code name = none := by
  induction code with
  | nil => rfl
  | cons instr rest ih =>
      rw [mem_definedLabels, List.mem_cons, not_or, ← mem_definedLabels] at absent
      rw [Code.labelPlace?, ih absent.2]
      exact if_neg (Ne.symm absent.1)

/-- A label that is defined once is found at the place of its definition. -/
theorem labelPlace?_eq_some {code : Code} {name : String} {place : Nat}
    (once : (definedLabels code).count name ≤ 1) (atPlace : code[place]? = some (.label name)) :
    Code.labelPlace? code name = some place := by
  induction code generalizing place with
  | nil => cases atPlace
  | cons instr rest ih =>
      cases place with
      | zero =>
          rw [List.getElem?_cons_zero, Option.some.injEq] at atPlace
          subst atPlace
          have absent : name ∉ definedLabels rest := by
            rw [← List.count_eq_zero]
            simpa [Instr.label?] using once
          rw [Code.labelPlace?, labelPlace?_eq_none absent]
          exact if_pos rfl
      | succ place =>
          have onceInRest : (definedLabels rest).count name ≤ 1 := by
            refine Nat.le_trans (List.Sublist.count_le name ?_) once
            exact List.Sublist.filterMap _ (List.sublist_cons_self instr rest)
          rw [Code.labelPlace?, ih onceInRest (by simpa using atPlace)]

/-! ## Steps -/

/-- An instruction after which the next one runs, unless it aborts, and that is no
target of jumps. -/
def Instr.IsStraight : Instr → Prop
  | .ret _ | .goto _ | .branch _ _ | .label _ => False
  | _ => True

section

variable {S : Type} [Arithmetic S] {method : Method} {world : World S} {checked : Bool}
  {place : Nat}

theorem step_of_isStraight {instr : Instr} (atPlace : method.body[place]? = some instr)
    (straight : instr.IsStraight) (world : World S) (checked : Bool) (state : State S) :
    method.step world checked ⟨place, state⟩ =
      match instr.effect world checked state with
      | .ok _ after => .next ⟨place + 1, after⟩
      | .error reason after => .stop ⟨.aborted reason, after⟩ := by
  rw [Method.step, atPlace]
  cases instr with
  | ret _ | goto _ | branch _ _ | label _ => exact straight.elim
  | _ => rfl

theorem step_label {name : String} (atPlace : method.body[place]? = some (.label name))
    (state : State S) : method.step world checked ⟨place, state⟩ = .next ⟨place + 1, state⟩ := by
  rw [Method.step, atPlace]

theorem step_goto {name : String} {target : Nat}
    (atPlace : method.body[place]? = some (.goto name))
    (labelEq : Code.labelPlace? method.body name = some target) (state : State S) :
    method.step world checked ⟨place, state⟩ = .next ⟨target, state⟩ := by
  simp only [Method.step, atPlace, jump, labelEq]

theorem step_ret {value : Option Value} (atPlace : method.body[place]? = some (.ret value))
    (state : State S) :
    method.step world checked ⟨place, state⟩ =
      .stop ⟨method.finish world checked state value, state⟩ := by
  rw [Method.step, atPlace]

end

end ClassCompiler.ThreeAddress
