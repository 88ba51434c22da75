import ClassCompiler.Proofs.Emission.Jumps
import ClassCompiler.Proofs.Emission.Verified
import Mathlib.Algebra.Ring.Int.Defs
import Mathlib.Order.Bounds.Defs

/-!
# Depths of the operand stack

Emission keeps account of the operand stack along the text of the lines, while a run
follows jumps. Both agree: on every path to a line the stack has the same depth, which
is zero at the beginning of each instruction of the method. The limit that is printed
is reached in the code of one of these instructions, and passed nowhere.
-/

namespace ClassCompiler.StackCode

open ThreeAddress (Method Value Call definedLabels JumpsInside)

/-! ## Counting values -/

/-- The mark that all values share. -/
def anyMark : Category → Unit := fun _ => ()

theorem regular_anyMark (value : Value) : Regular anyMark value := by
  induction value with
  | element array position ty arrayRegular positionRegular =>
      exact ⟨arrayRegular, positionRegular, rfl, rfl⟩
  | _ => trivial

theorem hasMark_anyMark (value : Value) (category : Category) : HasMark anyMark value category :=
  ⟨regular_anyMark value, rfl⟩

/-- A verifier that only counts values agrees to every instruction. -/
theorem agrees_anyMark (isMain : Bool) (instr : ThreeAddress.Instr) :
    Agrees anyMark isMain instr := by
  have marked := hasMark_anyMark
  cases instr with
  | assign dest value => cases dest <;> simp [Agrees, marked]
  | call dest call =>
      refine ⟨?_, fun _ _ => rfl⟩
      unfold AgreesCall
      split
      · exact marked _ _
      · exact marked _ _
      · exact ⟨fun _ => marked _ _, fun _ _ => marked _ _⟩
      · trivial
  | ret value => cases value <;> simp [Agrees, marked]
  | _ => simp [Agrees, marked, anyMark]

/-- The depth of the stack follows its marks. -/
theorem depthAfter_length {instr : Instr} {stack : List Unit}
    (fits : Fits anyMark instr.operands stack) :
    instr.depthAfter stack.length = (instr.stackAfter anyMark stack).length := by
  have enough := fits.length_le
  rw [Instr.depthAfter, Instr.stackAfter, List.length_append, List.length_map, List.length_drop]
  omega

section

variable {lines : Lines} {limit place : Nat} {depth : Int} {exit : List Unit}

/-- The depth at a place that is reached is that of the stack with which the place is
passed. -/
theorem Passes.exists_stack (passes : Passes anyMark limit lines [] exit) :
    ∃ profile, Checks anyMark (labelStack anyMark) limit lines [] profile exit ∧
      ∀ {place : Nat} {depth : Int}, Reaches lines Instr.depthAfter 0 place depth →
        ∃ stack, (profile ++ [exit])[place]? = some stack ∧ depth = stack.length := by
  obtain ⟨profile, checks⟩ := passes
  exact ⟨profile, checks, fun reached =>
    checks.of_reaches (fun _ _ fits => depthAfter_length fits) reached⟩

theorem Passes.depth_unique (passes : Passes anyMark limit lines [] exit) {other : Int}
    (reached : Reaches lines Instr.depthAfter 0 place depth)
    (otherReached : Reaches lines Instr.depthAfter 0 place other) : depth = other := by
  obtain ⟨profile, _, depthOf⟩ := passes.exists_stack
  obtain ⟨stack, stackEq, rfl⟩ := depthOf reached
  obtain ⟨otherStack, otherEq, rfl⟩ := depthOf otherReached
  rw [stackEq] at otherEq
  cases otherEq
  rfl

theorem Passes.depth_bounded (passes : Passes anyMark limit lines [] exit)
    (reached : Reaches lines Instr.depthAfter 0 place depth) : 0 ≤ depth ∧ depth ≤ limit := by
  obtain ⟨profile, checks, depthOf⟩ := passes.exists_stack
  obtain ⟨stack, stackEq, rfl⟩ := depthOf reached
  have bounded := checks.bounded (List.mem_of_getElem? stackEq)
  omega

theorem Passes.operands_le_depth (passes : Passes anyMark limit lines [] exit)
    (reached : Reaches lines Instr.depthAfter 0 place depth) {instr : Instr}
    (atPlace : lines[place]? = some (.instr instr)) : instr.operands.length ≤ depth := by
  obtain ⟨profile, checks, depthOf⟩ := passes.exists_stack
  obtain ⟨stack, stackEq, rfl⟩ := depthOf reached
  obtain ⟨found, foundEq, fits, _⟩ := checks.getElem?_instr atPlace
  rw [stackEq] at foundEq
  cases foundEq
  exact Int.ofNat_le.mpr fits.length_le

end

/-! ## Depths that are reached -/

section

variable {lines first second : Lines} {value : Value} {names : List String}

/-- How far straight lines raise the stack in the end. -/
def rise (lines : Lines) : Int :=
  (lines.map fun
    | .instr instr => instr.depthAfter 0
    | .label _ => 0).sum

@[simp] theorem rise_nil : rise [] = 0 := rfl

@[simp] theorem rise_instr (instr : Instr) (rest : Lines) :
    rise (.instr instr :: rest) = instr.depthAfter 0 + rise rest := by
  simp [rise]

@[simp] theorem rise_append (first second : Lines) :
    rise (first ++ second) = rise first + rise second := by
  simp [rise]

/-- Straight lines are passed from any place. -/
theorem Reaches.straight {start depth : Int} {place : Nat} {rest : Lines}
    (reached : Reaches lines Instr.depthAfter start place depth)
    (ahead : lines.drop place = first ++ rest) (straight : Straight first) :
    Reaches lines Instr.depthAfter start (place + first.length) (depth + rise first) := by
  induction first generalizing place depth with
  | nil => simpa using reached
  | cons line first ih =>
      obtain ⟨⟨instr, rfl, isStraight⟩, restStraight⟩ := List.forall_mem_cons.mp straight
      have atPlace : lines[place]? = some (.instr instr) := by
        rw [← Nat.add_zero place, ← List.getElem?_drop, ahead]
        rfl
      have behind : lines.drop (place + 1) = first ++ rest := by
        rw [← List.drop_drop, ahead]
        rfl
      have next := ih (reached.next atPlace isStraight.fallsThrough_eq_true) behind
        restStraight
      have depthEq :
          instr.depthAfter depth + rise first = depth + rise (.instr instr :: first) := by
        rw [rise_instr, Instr.depthAfter, Instr.depthAfter]
        omega
      rw [List.length_cons, ← depthEq]
      convert next using 1
      omega

/-- A depth that straight lines at the beginning reach. -/
def Peaks (lines : Lines) (depth : Nat) : Prop :=
  ∃ first rest, lines = first ++ rest ∧ Straight first ∧ rise first = depth

theorem Peaks.reaches {depth : Nat} (peaks : Peaks lines depth) :
    ∃ place, Reaches lines Instr.depthAfter 0 place depth := by
  obtain ⟨first, rest, rfl, straight, riseEq⟩ := peaks
  have atStart : Reaches (first ++ rest) Instr.depthAfter 0 0 0 := .entry
  have reached := atStart.straight List.drop_zero straight
  rw [riseEq, Int.zero_add] at reached
  exact ⟨_, reached⟩

theorem peaks_zero (lines : Lines) : Peaks lines 0 := ⟨[], lines, rfl, straight_nil, rfl⟩

theorem Peaks.append_right {depth : Nat} (peaks : Peaks first depth) :
    Peaks (first ++ second) depth := by
  obtain ⟨before, rest, rfl, straight, riseEq⟩ := peaks
  exact ⟨before, rest ++ second, List.append_assoc _ _ _, straight, riseEq⟩

theorem Peaks.append_left {depth raised : Nat} (peaks : Peaks second depth)
    (straight : Straight first) (riseEq : rise first = raised) :
    Peaks (first ++ second) (depth + raised) := by
  obtain ⟨before, rest, rfl, straightBefore, riseBefore⟩ := peaks
  refine ⟨first ++ before, rest, (List.append_assoc _ _ _).symm, straight.append straightBefore, ?_⟩
  rw [rise_append, riseEq, riseBefore]
  omega

theorem peaks_of_straight {depth : Nat} (straight : Straight lines) (riseEq : rise lines = depth) :
    Peaks lines depth :=
  ⟨lines, [], (List.append_nil _).symm, straight, riseEq⟩

theorem Peaks.max {depth other : Nat} (peaks : Peaks lines depth) (otherPeaks : Peaks lines other) :
    Peaks lines (max depth other) := by
  rcases Nat.le_total depth other with le | le
  · rwa [Nat.max_eq_right le]
  · rwa [Nat.max_eq_left le]

/-! ## Heights of code -/

theorem rise_loadCode (loadable : Loadable names value) : rise (loadCode names value) = 1 := by
  induction value with
  | const constant => cases constant <;> rfl
  | classRef name => exact loadable.elim
  | element array position ty arrayRise positionRise =>
      rw [loadCode, rise_append, rise_append, arrayRise loadable.1, positionRise loadable.2]
      rfl
  | _ => rfl

/-- Pushing an operand reaches its height. -/
theorem peaks_loadCode (loadable : Loadable names value) :
    Peaks (loadCode names value) (loadHeight value) := by
  induction value with
  | element array position ty arrayPeaks positionPeaks =>
      rw [loadCode, loadHeight, List.append_assoc]
      apply (arrayPeaks loadable.1).append_right.max
      exact (positionPeaks loadable.2).append_right.append_left (straight_loadCode _ _)
        (rise_loadCode loadable.1)
  | classRef name => exact loadable.elim
  | _ => exact peaks_of_straight (straight_loadCode _ _) (rise_loadCode loadable)

theorem rise_loadsCode {values : List Value} (loadable : ∀ value ∈ values, Loadable names value) :
    rise (loadsCode names values) = values.length := by
  induction values with
  | nil => rfl
  | cons value rest ih =>
      obtain ⟨loads, restLoads⟩ := List.forall_mem_cons.mp loadable
      have restRise := ih restLoads
      rw [loadsCode] at restRise
      rw [loadsCode, List.flatMap_cons, rise_append, rise_loadCode loads, restRise,
        List.length_cons]
      omega

/-- Pushing operands reaches their height. -/
theorem peaks_loadsCode {values : List Value} (loadable : ∀ value ∈ values, Loadable names value) :
    Peaks (loadsCode names values) (loadsHeight values) := by
  induction values with
  | nil => exact peaks_zero _
  | cons value rest ih =>
      obtain ⟨loads, restLoads⟩ := List.forall_mem_cons.mp loadable
      rw [loadsCode, List.flatMap_cons, loadsHeight]
      apply (peaks_loadCode loads).append_right.max
      exact (ih restLoads).append_left (straight_loadCode _ _)
        (rise_loadCode loads)

/-- An invocation replaces its operands by its result. -/
theorem depthAfter_invoke (linkage : Linkage) (mode : ThreeAddress.InvokeMode)
    (owner method : String) (target : Value) (args : List Value) (returnTy : Ty) :
    (Instr.invoke mode owner method
      (linkage.paths.signatureOf (args.map Value.ty) returnTy)).depthAfter 0 =
      -(operandsOf mode target args).length + if returnTy.isVoid then 0 else 1 := by
  have marks : List.Forall₂ (HasMark anyMark) (operandsOf mode target args)
      (operandCategories mode args) :=
    forall₂_operandsOf (fun _ => hasMark_anyMark _ _) fun _ _ => hasMark_anyMark _ _
  rw [Instr.depthAfter, operands_invoke, results_invoke, List.length_map, List.length_reverse,
    ← marks.length_eq]
  cases returnTy.isVoid <;> simp

/-- A call reaches its height. -/
theorem peaks_callCode {linkage : Linkage} {call : Call} (callable : Callable names call) :
    Peaks (callCode linkage names call) (callHeight call) := by
  obtain ⟨invocation, target, method, args, returnTy⟩ := call
  cases invocation with
  | new => exact peaks_of_straight (straight_callCode _ _ _) rfl
  | newArray =>
      cases args with
      | nil => exact callable.elim
      | cons size rest => exact (peaks_loadCode callable.1).append_right
  | arrayLength =>
      cases target with
      | none => exact callable.elim
      | some array => exact (peaks_loadCode callable).append_right
  | invoke mode =>
      cases target with
      | none => exact callable.elim
      | some target =>
          cases method with
          | none => exact callable.elim
          | some method =>
              obtain ⟨_, loadable, _, _⟩ := callable
              apply (peaks_loadsCode loadable).append_right.max
              change Peaks _ (if (!returnTy.isVoid) = true then 1 else 0)
              cases isVoid : returnTy.isVoid with
              | true => exact peaks_zero _
              | false =>
                  have straight := straight_callCode linkage names
                    ⟨.invoke mode, some target, some method, args, returnTy⟩
                  apply peaks_of_straight straight
                  change rise (loadsCode names (operandsOf mode target args) ++ [_]) = 1
                  rw [rise_append, rise_loadsCode loadable, rise_instr,
                    depthAfter_invoke linkage mode _ method target args, isVoid, rise_nil]
                  simp only [Bool.false_eq_true, if_false]
                  omega

/-- An instruction reaches its height. -/
theorem peaks_instrCode {linkage : Linkage} {isMain : Bool} {counts : ComparisonCounts}
    {instr : ThreeAddress.Instr} (hasCode : HasCode isMain names instr) :
    Peaks (instrCode linkage isMain names counts instr) (instrHeight isMain instr) := by
  cases instr with
  | assign dest value =>
      cases dest with
      | element array position ty =>
          obtain ⟨arrayLoads, positionLoads, valueLoads⟩ := hasCode
          exact (peaks_loadsCode (by simp [arrayLoads, positionLoads, valueLoads])).append_right
      | _ => exact (peaks_loadCode hasCode.1).append_right
  | binary dest op left right =>
      cases found : increment? dest op left right with
      | some increment =>
          simp only [instrHeight, found, Option.isSome_some, if_true]
          exact peaks_zero _
      | none =>
          simp only [HasCode, found] at hasCode
          simp only [instrHeight, instrCode, found, Option.isSome_none, Bool.false_eq_true,
            if_false]
          exact (peaks_loadsCode (by simp [hasCode.1, hasCode.2.1])).append_right.append_right
  | not dest operand =>
      have loads := peaks_loadCode hasCode.1
      have pushesOne : Peaks [.instr (.pushInt 1), .instr .xor] 1 :=
        ⟨[.instr (.pushInt 1)], [.instr .xor], rfl, straight_singleton trivial, rfl⟩
      apply loads.append_right.append_right.max
      exact (pushesOne.append_left (straight_loadCode _ _) (rise_loadCode hasCode.1)).append_right
  | getField dest object field ty => exact (peaks_loadCode hasCode.1).append_right.append_right
  | putField object field value =>
      exact (peaks_loadsCode (by simp [hasCode.1, hasCode.2.1])).append_right
  | call dest call => exact (peaks_callCode hasCode.1).append_right
  | ret value =>
      cases value with
      | none => exact peaks_zero _
      | some value =>
          cases isMain with
          | true => exact peaks_zero _
          | false =>
              exact (peaks_loadCode (hasCode.resolve_left Bool.false_ne_true)).append_right
  | goto target => exact peaks_zero _
  | branch cond target => exact (peaks_loadCode hasCode).append_right
  | label name => exact peaks_zero _

end

/-! ## Methods -/

/-- The lines that are emitted for an instruction of a method, from a new frame and some
counts of comparisons. -/
def EmitsBlock (linkage : Linkage) (method : Method) (instr : ThreeAddress.Instr)
    (block : Lines) : Prop :=
  ∃ frame counts after, Frame.ofMethod method = .ok frame ∧
    emitInstr linkage method instr ⟨frame, counts⟩ = .ok () after ∧
    after.frame.lines.toList = block

/-- The lines of a method are made of parts, one for each instruction. The depth of the
stack is the same on all paths to a line. It is never negative, enough for the operands of
the line and never above the limit, and it is zero between parts. The limit is the
greatest depth inside one of the parts. -/
structure HasExactDepths (linkage : Linkage) (method : Method) (limit : Nat) (lines : Lines)
    (parts : List Lines) : Prop where
  lines_eq : lines = parts.flatten
  emitted : List.Forall₂ (EmitsBlock linkage method) method.body parts
  unique : ∀ place depth other, Reaches lines Instr.depthAfter 0 place depth →
    Reaches lines Instr.depthAfter 0 place other → depth = other
  bounded : ∀ place depth, Reaches lines Instr.depthAfter 0 place depth →
    0 ≤ depth ∧ depth ≤ limit
  enough : ∀ place depth instr, Reaches lines Instr.depthAfter 0 place depth →
    lines[place]? = some (.instr instr) → instr.operands.length ≤ depth
  empty : ∀ before behind depth, parts = before ++ behind →
    Reaches lines Instr.depthAfter 0 before.flatten.length depth → depth = 0
  attained : parts ≠ [] → ∃ part ∈ parts,
    IsGreatest { depth | ∃ place, Reaches part Instr.depthAfter 0 place depth } (limit : Int)

theorem instrHeight_le_bodyHeight {isMain : Bool} {body : ThreeAddress.Code}
    {instr : ThreeAddress.Instr} (member : instr ∈ body) :
    instrHeight isMain instr ≤ bodyHeight isMain body := by
  induction body with
  | nil => cases member
  | cons head rest ih =>
      rw [bodyHeight]
      rcases List.mem_cons.mp member with rfl | later
      · exact Nat.le_max_left _ _
      · exact (ih later).trans (Nat.le_max_right _ _)

/-- The height of a body is that of one of its instructions. -/
theorem exists_block_of_bodyHeight (linkage : Linkage) (isMain : Bool) (names : List String)
    (counts : ComparisonCounts) {body : ThreeAddress.Code} (nonempty : body ≠ []) :
    ∃ block ∈ bodyBlocks linkage isMain names counts body, ∃ instr ∈ body, ∃ before,
      block = instrCode linkage isMain names before instr ∧
        instrHeight isMain instr = bodyHeight isMain body := by
  induction body generalizing counts with
  | nil => exact absurd rfl nonempty
  | cons instr rest ih =>
      rw [bodyHeight, bodyBlocks]
      by_cases highest : bodyHeight isMain rest ≤ instrHeight isMain instr
      · exact ⟨_, List.mem_cons_self, instr, List.mem_cons_self, counts, rfl,
          (Nat.max_eq_left highest).symm⟩
      · have restNonempty : rest ≠ [] := by
          rintro rfl
          exact highest (Nat.zero_le _)
        obtain ⟨block, blockMember, other, otherMember, before, blockEq, heightEq⟩ :=
          ih (instrCounts counts instr) restNonempty
        exact ⟨block, List.mem_cons_of_mem _ blockMember, other, List.mem_cons_of_mem _ otherMember,
          before, blockEq, heightEq.trans (Nat.max_eq_right (Nat.le_of_not_le highest)).symm⟩

theorem forall₂_emitsBlock {linkage : Linkage} {method : Method} {frame : Frame Instr}
    (made : Frame.ofMethod method = .ok frame) {body : ThreeAddress.Code}
    (hasCode : ∀ instr ∈ body, HasCode method.isMain (slotNames method) instr)
    (counts : ComparisonCounts) :
    List.Forall₂ (EmitsBlock linkage method) body
      (bodyBlocks linkage method.isMain (slotNames method) counts body) := by
  induction body generalizing counts with
  | nil => exact .nil
  | cons instr rest ih =>
      obtain ⟨instrHasCode, restHasCode⟩ := List.forall_mem_cons.mp hasCode
      refine .cons ?_ (ih restHasCode _)
      obtain ⟨table, holds, rfl⟩ := exists_holds_of_ofMethod made
      have emits : emitInstr linkage method instr ⟨.ofSlots method.name table, counts⟩ =
          .ok () _ :=
        (succeeds_emitInstr (holds.gives method.name) rfl method instr () _).mpr
          ⟨instrHasCode, rfl, rfl⟩
      exact ⟨_, counts, _, made, emits, by simp [Frame.add, Frame.ofSlots]⟩

section

variable {α : Type} {mark : Category → α} {linkage : Linkage} {method : Method}

/-- The code of an instruction of a method is passed if the marks agree to it. -/
theorem passes_instrCode_of_mem (isEmittable : IsEmittable method)
    (inside : JumpsInside method.body)
    (foreign : ∀ label ∈ definedLabels method.body, ¬IsComparisonLabel label) {limit : Nat}
    {instr : ThreeAddress.Instr} (member : instr ∈ method.body)
    (agrees : Agrees mark method.isMain instr) (room : instrHeight method.isMain instr ≤ limit)
    (before : ComparisonCounts) :
    Passes mark limit (instrCode linkage method.isMain (slotNames method) before instr) [] [] := by
  refine passes_instrCode (isEmittable.emittable instr member) agrees ?_ ?_ room
  · intro name labelEq
    exact labelStack_eq_nil _ (foreign name (List.mem_filterMap.mpr ⟨instr, member, labelEq⟩))
  · intro name targetEq
    exact labelStack_eq_nil _ (foreign name (inside instr member name targetEq))

theorem passes_bodyBlocks (isEmittable : IsEmittable method) (inside : JumpsInside method.body)
    (foreign : ∀ label ∈ definedLabels method.body, ¬IsComparisonLabel label)
    (agrees : ∀ instr ∈ method.body, Agrees mark method.isMain instr)
    (counts : ComparisonCounts) :
    ∀ block ∈ bodyBlocks linkage method.isMain (slotNames method) counts method.body,
      Passes mark (bodyHeight method.isMain method.body) block [] [] := by
  intro block member
  obtain ⟨instr, instrMember, before, rfl⟩ := exists_instr_of_mem_bodyBlocks _ _ _ member
  exact passes_instrCode_of_mem isEmittable inside foreign instrMember (agrees instr instrMember)
    (instrHeight_le_bodyHeight instrMember) before

end

/-- The stack limit of a generated method is exact. -/
theorem hasExactDepths_generatedMethod {linkage : Linkage} {method : Method}
    (isEmittable : IsEmittable method) (inside : JumpsInside method.body)
    (foreign : ∀ label ∈ definedLabels method.body, ¬IsComparisonLabel label)
    (counts : ComparisonCounts) :
    HasExactDepths linkage method (bodyHeight method.isMain method.body)
      (generatedMethod linkage method counts).lines
      (bodyBlocks linkage method.isMain (slotNames method) counts method.body) := by
  have passesBlocks : ∀ block ∈ bodyBlocks linkage method.isMain (slotNames method) counts
      method.body, Passes anyMark (bodyHeight method.isMain method.body) block [] [] :=
    passes_bodyBlocks isEmittable inside foreign (fun _ _ => agrees_anyMark _ _) counts
  have linesEq : (generatedMethod linkage method counts).lines =
      (bodyBlocks linkage method.isMain (slotNames method) counts method.body).flatten :=
    (flatten_bodyBlocks linkage method.isMain (slotNames method) counts method.body).symm
  have passes := passes_flatten passesBlocks
  rw [← linesEq] at passes
  obtain ⟨frame, made⟩ : ∃ frame : Frame Instr, Frame.ofMethod method = .ok frame :=
    (exists_ofMethod_iff method).mpr ⟨isEmittable.distinct, isEmittable.fits⟩
  refine ⟨linesEq, forall₂_emitsBlock made (fun instr member =>
    (isEmittable.emittable instr member).1) counts, ?_, ?_, ?_, ?_, ?_⟩
  · intro place depth other reached otherReached
    exact passes.depth_unique reached otherReached
  · intro place depth reached
    exact passes.depth_bounded reached
  · intro place depth instr reached atPlace
    exact passes.operands_le_depth reached atPlace
  · intro before behind depth blocksEq reached
    rw [linesEq, blocksEq, List.flatten_append] at reached
    rw [blocksEq, List.forall_mem_append] at passesBlocks
    exact (passes_flatten passesBlocks.1).of_reaches_between (passes_flatten passesBlocks.2)
      (fun _ _ fits => depthAfter_length fits) reached
  · intro nonempty
    have bodyNonempty : method.body ≠ [] := by
      intro noBody
      rw [noBody] at nonempty
      exact nonempty rfl
    obtain ⟨_, blockMember, instr, member, before, rfl, heightEq⟩ :=
      exists_block_of_bodyHeight linkage method.isMain (slotNames method) counts bodyNonempty
    refine ⟨_, blockMember, ?_, ?_⟩
    · change ∃ place,
        Reaches _ Instr.depthAfter 0 place (bodyHeight method.isMain method.body : Int)
      rw [← heightEq]
      exact (peaks_instrCode (isEmittable.emittable instr member).1).reaches
    · rintro depth ⟨place, reached⟩
      have passesInstr : Passes anyMark _ (instrCode linkage _ _ before instr) [] [] :=
        passes_instrCode_of_mem isEmittable inside foreign member (agrees_anyMark _ _)
          (Nat.le_of_eq heightEq) before
      exact (passesInstr.depth_bounded reached).2

/-! ## Listings -/

/-- In the listing of a compiled class with plain names, the blocks are those of its methods
in order, and each prints an exact stack limit. -/
theorem stack_limits_exact_of_compile {options : Options} {table : SymbolTable}
    {program : Program} {compiled : Compiled}
    (run : compile options table program = .ok compiled) (plainOptions : PlainOptions options)
    (plain : PlainClass compiled.unit) :
    ∃ blocks, readListing compiled.assembly = some blocks ∧
      List.Forall₂ (fun method block =>
          block.header = (methodHeader (.ofClass compiled.unit) method).text ∧
          ∃ parts, HasExactDepths (.ofClass options.rootClass compiled.unit) method
            block.stackLimit block.lines parts)
        compiled.unit.methods blocks := by
  obtain ⟨lowered, file, isWritten⟩ := compile_eq_ok_iff.mp run
  have read := isWritten.readListing_assembly plainOptions plain
  obtain ⟨last, generated⟩ := isWritten.generated
  obtain ⟨methods, _, lowers, unitEq⟩ := ThreeAddress.exists_lowersMethods_of_lowerFresh lowered
  obtain ⟨_, codes, generates, rfl⟩ := generateClass_eq_ok_iff.mp generated
  refine ⟨_, read, List.forall₂_map_right_iff.mpr (generates.forall₂ ?_)⟩
  intro method member isEmittable counts
  rw [unitEq] at member
  exact ⟨rfl, _, hasExactDepths_generatedMethod isEmittable
    (jumpsInside_of_mem_classOf lowers member)
    (not_isComparisonLabel_of_mem_classOf lowers member) counts⟩

/-- The class has comparisons inside loops, element accesses and calls with results. -/
theorem stack_limits_exact_ledgerProgram :
    PlainOptions {} ∧
      ∃ compiled, compile {} (.ofProgram ledgerProgram) ledgerProgram = .ok compiled ∧
        PlainClass compiled.unit ∧
        ∃ blocks, readListing compiled.assembly = some blocks ∧
          List.Forall₂ (fun method block =>
              block.header = (methodHeader (.ofClass compiled.unit) method).text ∧
              ∃ parts, HasExactDepths (.ofClass ({} : Options).rootClass compiled.unit) method
                block.stackLimit block.lines parts)
            compiled.unit.methods blocks := by
  have plainOptions : PlainOptions {} := ⟨by decide, by decide⟩
  obtain ⟨compiled, run⟩ := exists_compile_ledgerProgram {}
  have plain : PlainClass compiled.unit := plainClass_of_compile run (by decide +kernel)
  exact ⟨plainOptions, compiled, run, plain, stack_limits_exact_of_compile run plainOptions plain⟩

/-- A class whose name has a semicolon, which ends the name of a class in a descriptor. Its
method passes itself to another class. -/
def splitNameProgram : Program where
  imports := ["Printer"]
  decl := {
    name := "A;LB"
    superClass := none
    fields := []
    methods := [{
      name := "show"
      returnTy := Ty.void
      params := []
      locals := []
      body := [.expr (.call (.var "Printer") "print" [.self])]
      isStatic := false
      isPublic := true }] }

/-- One value is pushed, and the descriptor that is printed takes two. -/
theorem not_stack_limits_sound_splitNameProgram :
    ∃ compiled, compile {} (.ofProgram splitNameProgram) splitNameProgram = .ok compiled ∧
      ∃ blocks, readListing compiled.assembly = some blocks ∧
        ∃ block ∈ blocks, ∃ place, Reaches block.lines Instr.depthAfter 0 place (-1) := by
  let lines : Lines := [.instr (.load .ref 0), .instr (.invoke .static "Printer" "print"
    ⟨[.object "A", .object "B"], .void⟩), .instr (.ret none)]
  obtain ⟨compiled, run, isRead⟩ := exists_compile_of_lines (.ofProgram splitNameProgram)
    splitNameProgram (fun texts => (readBlocks texts).map (fun blocks =>
      blocks.any (·.lines = lines)) = some true) (by decide +kernel)
  obtain ⟨blocks, blocksEq, found⟩ := Option.map_eq_some_iff.mp isRead
  obtain ⟨block, member, linesEq⟩ := List.any_eq_true.mp found
  refine ⟨compiled, run, blocks, blocksEq, block, member, 2, ?_⟩
  rw [of_decide_eq_true linesEq]
  have atStart : Reaches lines Instr.depthAfter 0 0 0 := .entry
  exact (atStart.next rfl rfl).next rfl rfl

end ClassCompiler.StackCode
