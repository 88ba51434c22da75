import ClassCompiler.Proofs.Emission.Blocks
import ClassCompiler.Proofs.Emission.Methods

/-!
# Stack code runs as its method does

The code of a body consists of the code of its instructions, each at its own place.
One step of the method is matched by the lines that were emitted for it: straight
instructions by their code, jumps by jumps to the place of the same label, returns
by returns. So the method and its lines end alike, or both run for ever.
-/

namespace ClassCompiler.StackCode

open Semantics Effects
open ThreeAddress (Method Value Config Ending definedLabels)

/-! ## Places -/

theorem loadCode_ne_nil {names : List String} {value : Value} (loadable : Loadable names value) :
    loadCode names value ≠ [] := by
  cases value with
  | classRef name => exact loadable.elim
  | const constant => cases constant <;> simp [loadCode]
  | _ => simp [loadCode]

theorem callCode_ne_nil {linkage : Linkage} {names : List String} {call : ThreeAddress.Call}
    (callable : Callable names call) : callCode linkage names call ≠ [] := by
  unfold Callable at callable
  unfold callCode
  split at callable
  · simp
  · simp
  · simp
  · simp
  · exact callable.elim

/-- Every instruction has at least one line. -/
theorem instrCode_ne_nil {linkage : Linkage} {isMain : Bool} {names : List String}
    {counts : ComparisonCounts} {instr : ThreeAddress.Instr}
    (hasCode : HasCode isMain names instr) : instrCode linkage isMain names counts instr ≠ [] := by
  cases instr with
  | assign dest value =>
      cases dest <;> simp_all [instrCode, HasCode, loadCode_ne_nil]
  | binary dest op left right =>
      cases found : increment? dest op left right <;>
        simp_all [instrCode, HasCode, loadsCode, loadCode_ne_nil]
  | ret value =>
      cases value with
      | none => simp [instrCode]
      | some value => cases isMain <;> simp [instrCode]
  | call dest call => simp [instrCode, callCode_ne_nil hasCode.1]
  | _ => simp [instrCode]

/-! ## Methods with clear names -/

/-- A method in which every jump has one label, no label looks like that of a
comparison, and the current object is not confused with a variable. -/
structure IsUnambiguous (method : Method) : Prop where
  target_once : ∀ instr ∈ method.body, ∀ target ∈ instr.target?,
    (definedLabels method.body).count target = 1
  label_foreign : ∀ label ∈ definedLabels method.body, ¬IsComparisonLabel label
  respects : ∀ instr ∈ method.body, ∀ value ∈ valuesOf instr, RespectsSelf method.isStatic value

/-- What can be seen of the end of a run: how it ended, the heap and the calls, and
the values of the variables. -/
structure Observation where
  outcome : Outcome Word
  memory : Store LinkedCall
  values : List (Val Word)

/-- What is seen when a method ends. -/
def observeEnding (linkage : Linkage) (method : Method) (ending : Ending Word) :
    Observation where
  outcome := ending.outcome
  memory := linkMemory linkage ending.state.memory
  values := method.allVariables.map fun symbol => ending.state.env symbol.name

/-- What is seen when the lines of a method end. -/
def observeHalt (method : Method) (halt : Halt) : Observation where
  outcome := halt.outcome
  memory := halt.machine.memory
  values := method.allVariables.map fun symbol =>
    halt.machine.slots (slotOf method symbol.name)

namespace Host

/-- The lines of a host are the code of its method, which can be run. -/
structure Emits (host : Host) (counts : ComparisonCounts) : Prop where
  lines_eq : host.lines = methodCode host.linkage host.method counts
  isEmittable : IsEmittable host.method
  unambiguous : IsUnambiguous host.method
  integers : host.checked = true → ∀ instr ∈ host.method.body, HasIntegerIncrement instr

variable {host : Host} {counts : ComparisonCounts} {place : Nat} {instr : ThreeAddress.Instr}

/-- The place of the code of the instruction at a place. -/
def codePlace (host : Host) (counts : ComparisonCounts) (place : Nat) : Nat :=
  (bodyCode host.linkage host.method.isMain host.names counts (host.method.body.take place)).length

/-- The code of the instruction at a place. -/
def codeAt (host : Host) (counts : ComparisonCounts) (place : Nat)
    (instr : ThreeAddress.Instr) : Lines :=
  instrCode host.linkage host.method.isMain host.names
    (bodyCounts counts (host.method.body.take place)) instr

theorem Emits.lines_split (emits : host.Emits counts)
    (atPlace : host.method.body[place]? = some instr) :
    ∃ before behind, before.length = host.codePlace counts place ∧
      host.lines = before ++ (host.codeAt counts place instr ++ behind) :=
  ⟨_, _, rfl, emits.lines_eq.trans (bodyCode_split atPlace)⟩

theorem Emits.placed (emits : host.Emits counts)
    (atPlace : host.method.body[place]? = some instr) :
    PlacedAt (host.codeAt counts place instr) (host.codePlace counts place) host.lines := by
  rcases emits.lines_split atPlace with ⟨before, behind, lengthEq, linesEq⟩
  rw [PlacedAt, linesEq, ← lengthEq, List.drop_left]
  exact List.prefix_append _ _

/-- The next place is behind the code of the instruction. -/
theorem codePlace_succ (atPlace : host.method.body[place]? = some instr) :
    host.codePlace counts (place + 1) =
      host.codePlace counts place + (host.codeAt counts place instr).length := by
  have taken : host.method.body.take (place + 1) = host.method.body.take place ++ [instr] := by
    rw [List.take_add_one, atPlace]
    rfl
  rw [codePlace, codePlace, codeAt, taken, bodyCode_append, List.length_append]
  simp [bodyCode]

/-- Behind the last instruction there are no more lines. -/
theorem Emits.getElem?_eq_none (emits : host.Emits counts)
    (atEnd : host.method.body[place]? = none) :
    host.lines[host.codePlace counts place]? = none := by
  rw [List.getElem?_eq_none_iff] at atEnd ⊢
  rw [codePlace, List.take_of_length_le atEnd, emits.lines_eq]
  exact Nat.le_refl _

/-! ## Labels -/

theorem Emits.comparisonsOnce (emits : host.Emits counts) : host.HasComparisonsOnce := by
  intro name isComparison
  rw [emits.lines_eq]
  exact count_lineLabels_bodyCode_le_one fun member =>
    emits.unambiguous.label_foreign name member isComparison

/-- A jump of the method and one of its lines go to the same instruction. -/
theorem Emits.target_place (emits : host.Emits counts) (member : instr ∈ host.method.body)
    {target : String} (targetEq : instr.target? = some target) :
    ∃ place, ThreeAddress.Code.labelPlace? host.method.body target = some place ∧
      labelPlace? host.lines target = some (host.codePlace counts place) := by
  have once := emits.unambiguous.target_once instr member target targetEq
  have defined : target ∈ definedLabels host.method.body :=
    List.one_le_count_iff.mp (Nat.le_of_eq once.symm)
  have onceInLines : (lineLabels host.lines).count target = 1 := by
    rw [emits.lines_eq, ← once]
    exact count_lineLabels_bodyCode (emits.unambiguous.label_foreign target defined)
  rcases List.mem_iff_getElem?.mp (ThreeAddress.mem_definedLabels.mp defined) with ⟨place, atPlace⟩
  exact ⟨place, ThreeAddress.labelPlace?_eq_some (Nat.le_of_eq once) atPlace,
    labelPlace?_eq_some (Nat.le_of_eq onceInLines) (emits.placed atPlace).head⟩

/-! ## Steps -/

/-- The method and its lines are at the same instruction, in states that mirror each
other, and the operand stack is empty. -/
structure Related (host : Host) (counts : ComparisonCounts) (config : Config Word)
    (position : Position) : Prop where
  place_eq : position.place = host.codePlace counts config.place
  stack_eq : position.machine.stack = []
  mirrors : host.Mirrors config.state position.machine

/-- A step of the method is matched by its lines. -/
abbrev StepMatched (host : Host) (counts : ComparisonCounts) (position : Position) :
    Progress (Config Word) (Ending Word) → Prop :=
  Matched (host.Related counts) host.step (observeEnding host.linkage host.method)
    (observeHalt host.method) position

variable {state : State Word} {machine : Machine}

/-- States that mirror each other look the same. -/
theorem Emits.observeHalt_eq (emits : host.Emits counts) (mirrors : host.Mirrors state machine)
    (outcome : Outcome Word) : observeHalt host.method ⟨outcome, machine⟩ =
      observeEnding host.linkage host.method ⟨outcome, state⟩ := by
  have valuesEq (symbol : Symbol) (member : symbol ∈ host.method.allVariables) :
      machine.slots (host.names.idxOf symbol.name) = state.env symbol.name := by
    have named : symbol.name ∈ host.method.allVariables.map Symbol.name :=
      List.mem_map_of_mem member
    have namesEq : host.names = (if host.method.isStatic then [] else ["this"]) ++
        host.method.allVariables.map Symbol.name := rfl
    refine mirrors.slot_eq symbol.name (namesEq ▸ List.mem_append_right _ named) ?_
    cases isStatic : host.method.isStatic with
    | true => exact .inl rfl
    | false =>
        have distinct : host.names.Nodup := emits.isEmittable.distinct
        rw [namesEq, isStatic] at distinct
        refine .inr fun isThis => ?_
        exact (List.nodup_cons.mp distinct).1 (isThis ▸ named)
  rw [observeHalt, observeEnding, mirrors.memory_eq, ← List.map_congr_left valuesEq]
  rfl

theorem Emits.matched_stop (emits : host.Emits counts) {position : Position}
    {outcome : Outcome Word}
    (stops : ∃ final, Stops host.step position ⟨outcome, final⟩ ∧ host.Mirrors state final) :
    host.StepMatched counts position (.stop ⟨outcome, state⟩) := by
  rcases stops with ⟨final, stops, mirrors⟩
  exact ⟨_, stops, emits.observeHalt_eq mirrors outcome⟩

/-- A straight instruction is matched by its code. -/
theorem Emits.matched_straight (emits : host.Emits counts)
    (atPlace : host.method.body[place]? = some instr) (straight : instr.IsStraight)
    (related : host.Related counts ⟨place, state⟩ ⟨host.codePlace counts place, machine⟩) :
    host.StepMatched counts ⟨host.codePlace counts place, machine⟩
      (host.method.step host.world host.checked ⟨place, state⟩) := by
  have member := List.mem_of_getElem? atPlace
  have emittable := emits.isEmittable.emittable instr member
  have simulated := realizes_instrCode straight emits.comparisonsOnce
    (bodyCounts counts (host.method.body.take place)) emittable
    (emits.unambiguous.respects instr member) (fun checked => emits.integers checked instr member)
    (host.codePlace counts place) (emits.placed atPlace) state machine [] related.mirrors
    related.stack_eq
  rw [ThreeAddress.step_of_isStraight atPlace straight]
  cases result : instr.effect host.world host.checked state with
  | error reason last =>
      rw [result] at simulated
      exact emits.matched_stop simulated
  | ok _ last =>
      rw [result] at simulated
      rcases simulated with ⟨n, final, steps, mirrors, stackEq⟩
      have codeNonempty : 0 < (host.codeAt counts place instr).length :=
        List.length_pos_of_ne_nil (instrCode_ne_nil emittable.1)
      have placeEq := @codePlace_succ host counts place instr atPlace
      cases n with
      | zero =>
          exfalso
          generalize stopEq : Position.mk _ final = stop at steps
          cases steps
          have samePlace := congrArg Position.place stopEq
          simp only at samePlace
          change host.codePlace counts place + (host.codeAt counts place instr).length = _ at samePlace
          omega
      | succ n => exact ⟨n, _, steps, placeEq.symm, stackEq, mirrors⟩

theorem Emits.matched_label (emits : host.Emits counts) {name : String}
    (atPlace : host.method.body[place]? = some (.label name))
    (related : host.Related counts ⟨place, state⟩ ⟨host.codePlace counts place, machine⟩) :
    host.StepMatched counts ⟨host.codePlace counts place, machine⟩
      (host.method.step host.world host.checked ⟨place, state⟩) := by
  rw [ThreeAddress.step_label atPlace]
  exact ⟨0, _, .single (step_label (emits.placed atPlace).head machine),
    (codePlace_succ atPlace).symm, related.stack_eq, related.mirrors⟩

theorem Emits.matched_goto (emits : host.Emits counts) {target : String}
    (atPlace : host.method.body[place]? = some (.goto target))
    (related : host.Related counts ⟨place, state⟩ ⟨host.codePlace counts place, machine⟩) :
    host.StepMatched counts ⟨host.codePlace counts place, machine⟩
      (host.method.step host.world host.checked ⟨place, state⟩) := by
  rcases emits.target_place (List.mem_of_getElem? atPlace) rfl with ⟨next, indexEq, labelEq⟩
  rw [ThreeAddress.step_goto atPlace indexEq]
  exact ⟨0, _, .single (step_goto (emits.placed atPlace).head labelEq machine), rfl,
    related.stack_eq, related.mirrors⟩

/-- The truth value of a condition is whether it differs from zero. -/
theorem test_scalar (value : Word) :
    (Val.scalar value).test = .ok (holds .notEqual value.toInt 0) := by
  have iff : value ≠ 0 ↔ value.toInt ≠ 0 := by
    rw [Ne, ← Int32.toInt_inj]
    rfl
  exact congrArg Except.ok (decide_eq_decide.mpr iff)

/-- A branch is matched by the code of its condition and a jump. -/
theorem Emits.matched_branch (emits : host.Emits counts) {cond : Value} {target : String}
    (atPlace : host.method.body[place]? = some (.branch cond target))
    (related : host.Related counts ⟨place, state⟩ ⟨host.codePlace counts place, machine⟩) :
    host.StepMatched counts ⟨host.codePlace counts place, machine⟩
      (host.method.step host.world host.checked ⟨place, state⟩) := by
  have member := List.mem_of_getElem? atPlace
  have placed := emits.placed atPlace
  have simulated := realizes_loadCode (emits.isEmittable.emittable _ member).1
    (emits.unambiguous.respects _ member cond List.mem_cons_self) (host.codePlace counts place)
    placed.left state machine [] related.mirrors related.stack_eq
  have fetchEq : cond.fetch host.world host.checked state =
      attempt (cond.read host.world host.checked state) state := rfl
  have placeEq := @codePlace_succ host counts place _ atPlace
  simp only [Method.step, atPlace]
  rw [fetchEq] at simulated
  cases readEq : cond.read host.world host.checked state with
  | error reason =>
      rw [readEq] at simulated
      exact emits.matched_stop simulated
  | ok value =>
      rw [readEq] at simulated
      rcases simulated with ⟨n, ⟨stack, slots, memory⟩, steps, mirrors, stackEq⟩
      cases stackEq
      have branchAt := placed.right.head
      cases value with
      | ref value =>
          exact emits.matched_stop ⟨_, .of_steps steps
            (.of_stop (step_branch_ref branchAt value [] slots memory)), mirrors.withStack []⟩
      | scalar value =>
          rcases emits.target_place member rfl with ⟨next, indexEq, labelEq⟩
          have branchEq := step_branch branchAt labelEq value [] slots memory
          have testEq : (Except.ok (Val.scalar value) >>= Val.test) =
              Except.ok (holds .notEqual value.toInt 0) := test_scalar value
          rw [testEq]
          cases holdsEq : holds .notEqual value.toInt 0 with
          | true =>
              rw [holdsEq] at branchEq
              simp only [ThreeAddress.jump, indexEq]
              exact ⟨n, _, steps.trans (.single branchEq), rfl, rfl, mirrors.withStack []⟩
          | false =>
              rw [holdsEq] at branchEq
              refine ⟨n, _, steps.trans (.single branchEq), ?_, rfl, mirrors.withStack []⟩
              rw [placeEq]
              simp [codeAt, instrCode, Nat.add_assoc]

theorem step_ret {category : Option Category}
    (atPlace : host.lines[place]? = some (.instr (.ret category))) (machine : Machine) :
    host.step ⟨place, machine⟩ =
      match returnOperand host.checked category machine with
      | .error reason final => .stop ⟨.aborted reason, final⟩
      | .ok value final => .stop ⟨.returned value, final⟩ := by
  cases returned : returnOperand host.checked category machine <;>
    simp only [step, StackCode.step, atPlace, returned]

theorem stops_ret_none (atPlace : host.lines[place]? = some (.instr (.ret none)))
    (mirrors : host.Mirrors state machine) :
    ∃ final, Stops host.step ⟨place, machine⟩ ⟨.returned none, final⟩ ∧ host.Mirrors state final :=
  ⟨machine, .of_stop (step_ret atPlace machine), mirrors⟩

/-- The code that returns a value ends as the method does. -/
theorem stops_ret_some {value : Value} (loadable : Loadable host.names value)
    (respects : RespectsSelf host.method.isStatic value) (notMain : ¬host.method.isMain = true)
    (placed : PlacedAt (loadCode host.names value ++
      [.instr (.ret (if value.ty.isVoid then none else some (valueCategory value.ty)))])
      place host.lines)
    (mirrors : host.Mirrors state machine) (stackEq : machine.stack = []) :
    ∃ final, Stops host.step ⟨place, machine⟩
        ⟨host.method.finish host.world host.checked state (some value), final⟩ ∧
      host.Mirrors state final := by
  have simulated := realizes_loadCode loadable respects place placed.left state machine [] mirrors
    stackEq
  have fetchEq : value.fetch host.world host.checked state =
      attempt (value.read host.world host.checked state) state := rfl
  rw [fetchEq] at simulated
  rw [Method.finish, if_neg notMain]
  cases readEq : value.read host.world host.checked state with
  | error reason =>
      rw [readEq] at simulated
      exact simulated
  | ok result =>
      rw [readEq] at simulated
      rcases simulated with ⟨n, ⟨stack, slots, memory⟩, steps, mirrorsLoaded, loadedEq⟩
      cases loadedEq
      have stepEq := step_ret placed.right.head ⟨[result], slots, memory⟩
      cases isVoid : value.ty.isVoid with
      | true =>
          rw [isVoid] at stepEq
          exact ⟨_, .of_steps steps (.of_stop stepEq), mirrorsLoaded⟩
      | false =>
          rw [isVoid] at stepEq
          simp only [Bool.false_eq_true, if_false, returnOperand, bind_apply, popOperand,
            accept_valueCategory] at stepEq
          cases accepted : accept host.checked value.ty result with
          | error reason | ok returned =>
              rw [accepted] at stepEq
              simp only [accepted]
              exact ⟨_, .of_steps steps (.of_stop stepEq), mirrorsLoaded.withStack []⟩

/-- A return is matched by the code of its value and a return of the same kind. -/
theorem Emits.matched_ret (emits : host.Emits counts) {value : Option Value}
    (atPlace : host.method.body[place]? = some (.ret value))
    (related : host.Related counts ⟨place, state⟩ ⟨host.codePlace counts place, machine⟩) :
    host.StepMatched counts ⟨host.codePlace counts place, machine⟩
      (host.method.step host.world host.checked ⟨place, state⟩) := by
  have member := List.mem_of_getElem? atPlace
  have placed := emits.placed atPlace
  rw [ThreeAddress.step_ret atPlace]
  apply emits.matched_stop
  cases value with
  | none => exact stops_ret_none placed.head related.mirrors
  | some value =>
      by_cases isMain : host.method.isMain = true
      · rw [codeAt, instrCode, if_pos isMain] at placed
        rw [Method.finish, if_pos isMain]
        exact stops_ret_none placed.head related.mirrors
      · rw [codeAt, instrCode, if_neg isMain] at placed
        exact stops_ret_some ((emits.isEmittable.emittable _ member).1.resolve_left isMain)
          (emits.unambiguous.respects _ member value List.mem_cons_self) isMain placed
          related.mirrors related.stack_eq

/-- Every step of the method is matched by its lines. -/
theorem Emits.matched (emits : host.Emits counts) (config : Config Word) (position : Position)
    (related : host.Related counts config position) :
    host.StepMatched counts position (host.method.step host.world host.checked config) := by
  rcases config with ⟨place, state⟩
  rcases position with ⟨position, machine⟩
  have placeEq : position = host.codePlace counts place := related.place_eq
  subst placeEq
  cases atPlace : host.method.body[place]? with
  | none =>
      have stepEq : host.step ⟨host.codePlace counts place, machine⟩ =
          .stop ⟨.fellThrough, machine⟩ := by
        rw [step, StackCode.step, emits.getElem?_eq_none atPlace]
      rw [Method.step, atPlace]
      exact emits.matched_stop ⟨machine, .of_stop stepEq, related.mirrors⟩
  | some instr =>
      cases instr with
      | label name => exact emits.matched_label atPlace related
      | goto target => exact emits.matched_goto atPlace related
      | branch cond target => exact emits.matched_branch atPlace related
      | ret value => exact emits.matched_ret atPlace related
      | assign | binary | not | getField | putField | call =>
          exact emits.matched_straight atPlace (by trivial) related

/-- The method and its lines end in ways that look the same, or both run for ever. -/
theorem Emits.stops_iff (emits : host.Emits counts) (mirrors : host.Mirrors state machine)
    (stackEq : machine.stack = []) (seen : Observation) :
    (∃ ending, Stops (host.method.step host.world host.checked) ⟨0, state⟩ ending ∧
        observeEnding host.linkage host.method ending = seen) ↔
      ∃ halt, Stops host.step ⟨0, machine⟩ halt ∧ observeHalt host.method halt = seen :=
  stops_iff_of_matched emits.matched ⟨rfl, stackEq, mirrors⟩ seen

end Host

end ClassCompiler.StackCode
