import ClassCompiler.Proofs.Assembly.Emitted
import ClassCompiler.Proofs.Emission.Simulation

/-!
# Generated code does what the method does

The lines that are generated for a method are read again as instructions. Run with
the variables of the method in their slots, they end as the method does: with the
same outcome, heap, calls and values of variables, or not at all.
-/

namespace ClassCompiler.StackCode

open Semantics Effects
open ThreeAddress (Call Method Value definedLabels)

/-- Every name that is written for a method is a name, and every path is a path. -/
structure HasPlainNames (linkage : Linkage) (method : Method) : Prop where
  paths : linkage.HasPaths
  names : ∀ instr ∈ method.body, ∀ name ∈ namesOf instr, IsName name

/-- Every variable is in its slot, and the current object is in slot zero of an
instance method. -/
structure HoldsVariables (method : Method) (object : Ref) (env : String → Val Word)
    (slots : Nat → Val Word) : Prop where
  slot_eq : ∀ symbol ∈ method.allVariables, slots (slotOf method symbol.name) = env symbol.name
  self_eq : method.isStatic = false → slots 0 = .ref object

/-- Slots that hold the variables mirror them. -/
theorem HoldsVariables.mirrors {host : Host} {start : State Word} {slots : Nat → Val Word}
    (holds : HoldsVariables host.method host.self start.env slots) :
    host.Mirrors start ⟨[], slots, linkMemory host.linkage start.memory⟩ where
  slot_eq name member respects := by
    have namesEq : host.names = (if host.method.isStatic then [] else ["this"]) ++
        host.method.allVariables.map Symbol.name := rfl
    have isVariable : name ∈ host.method.allVariables.map Symbol.name := by
      rw [namesEq, List.mem_append] at member
      rcases member with isThis | isVariable
      · cases isStatic : host.method.isStatic <;> simp_all
      · exact isVariable
    rcases List.mem_map.mp isVariable with ⟨symbol, symbolMember, rfl⟩
    exact holds.slot_eq symbol symbolMember
  self_eq := holds.self_eq
  memory_eq := rfl

/-- The written code of a method is read as lines that run as the method does. -/
theorem stops_iff_of_generateMethod {linkage : Linkage} {method : Method}
    {counts after : ComparisonCounts} {code : MethodCode} {indent : String}
    (generated : generateMethod linkage method counts = .ok code after)
    (unambiguous : IsUnambiguous method) (plain : HasPlainNames linkage method)
    (isIndent : IsIndent indent) :
    (∃ frame : Frame Instr, Frame.ofMethod method = .ok frame ∧
      ∀ symbol ∈ method.allVariables,
        frame.slot symbol.name = .ok (slotOf method symbol.name)) ∧
    ∃ lines, readLines (code.lines.map (Line.text indent Instr.text)) = some lines ∧
      ∀ (self : Ref) (answer : List LinkedCall → Heap → Answer) (checked : Bool)
        (start : State Word) (slots : Nat → Val Word),
        (checked = true → ∀ instr ∈ method.body, HasIntegerIncrement instr) →
        HoldsVariables method self start.env slots → ∀ seen,
          (∃ ending, Stops (method.step (linkedWorld linkage self answer) checked) ⟨0, start⟩
              ending ∧ observeEnding linkage method ending = seen) ↔
            ∃ halt, Stops (step answer checked lines)
              ⟨0, [], slots, linkMemory linkage start.memory⟩ halt ∧
              observeHalt method halt = seen := by
  rcases generateMethod_eq_ok_iff.mp generated with ⟨isEmittable, _, _, _, linesEq, _⟩
  constructor
  · rcases (exists_ofMethod_iff method).mpr ⟨isEmittable.distinct, isEmittable.fits⟩ with
      ⟨frame, made⟩
    exact ⟨frame, made, fun symbol member => slot_of_ofMethod made member⟩
  · have readable : AllReadable code.lines := by
      rw [linesEq]
      exact allReadable_bodyCode plain.paths _ _ _ plain.names
    refine ⟨code.lines, readLines_text isIndent readable, ?_⟩
    intro self answer checked start slots integers holds seen
    have emits : (Host.mk linkage method code.lines self answer checked).Emits counts :=
      ⟨linesEq, isEmittable, unambiguous, integers⟩
    exact emits.stops_iff holds.mirrors rfl seen

/-- A method that adds up an array, keeps the sum in a field and reports it. -/
def summingMethod : Method where
  name := "sum"
  returnTy := Ty.int
  params := [⟨"items", Ty.arrayOf "int"⟩]
  locals := [⟨"total", Ty.int⟩, ⟨"i", Ty.int⟩]
  temps := [⟨"tmp0", Ty.int⟩, ⟨"tmp1", Ty.boolean⟩]
  body := [
    .assign (.var "total" Ty.int) (.int 0),
    .assign (.var "i" Ty.int) (.int 0),
    .label (labelName .whileCond 0),
    .call (some (.temp "tmp0" Ty.int)) (.arrayLength (.var "items" (Ty.arrayOf "int"))),
    .binary (.temp "tmp1" Ty.boolean) (.compare .greaterEqual) (.var "i" Ty.int)
      (.temp "tmp0" Ty.int),
    .branch (.temp "tmp1" Ty.boolean) (labelName .whileEnd 0),
    .assign (.temp "tmp0" Ty.int)
      (.element (.var "items" (Ty.arrayOf "int")) (.var "i" Ty.int) Ty.int),
    .binary (.var "total" Ty.int) (.arith .add) (.var "total" Ty.int) (.temp "tmp0" Ty.int),
    .binary (.var "i" Ty.int) (.arith .add) (.var "i" Ty.int) (.int 1),
    .goto (labelName .whileCond 0),
    .label (labelName .whileEnd 0),
    .putField (.self (Ty.named "Adder")) "last" (.var "total" Ty.int),
    .call none (.invoke .virtual (.self (Ty.named "Adder")) "report"
      [.string "the sum:", .var "total" Ty.int] Ty.void),
    .ret (some (.var "total" Ty.int))]

/-- The class of the method that adds up an array. -/
def summingLinkage : Linkage := ⟨⟨"Adder", [("Printer", "io/Printer")]⟩, "java/lang/Object"⟩

theorem isEmittable_summingMethod : IsEmittable summingMethod where
  distinct := by decide
  fits := by decide
  emittable := by decide

theorem isUnambiguous_summingMethod : IsUnambiguous summingMethod where
  target_once := by decide
  label_foreign label member := by
    have labels : definedLabels summingMethod.body =
        [labelName .whileCond 0, labelName .whileEnd 0] := rfl
    rw [labels, List.mem_cons, List.mem_singleton] at member
    rcases member with rfl | rfl
    · exact not_isComparisonLabel_labelName _ _
    · exact not_isComparisonLabel_labelName _ _
  respects := by
    simp [summingMethod, valuesOf, RespectsSelf, Call.arrayLength, Call.invoke, Value.int,
      Value.string]

theorem hasPlainNames_summingMethod : HasPlainNames summingLinkage summingMethod where
  paths := ⟨by decide, by decide⟩
  names := by decide

/-- The code that is generated for the method that adds up an array. -/
def summingCode : MethodCode where
  header := .method true false "sum" ⟨[.array .int], .int⟩
  stackLimit := 3
  localLimit := 6
  lines := methodCode summingLinkage summingMethod {}

theorem generateMethod_summingMethod :
    generateMethod summingLinkage summingMethod {} =
      .ok summingCode { ({} : ComparisonCounts) with greaterEqual := 1 } :=
  generateMethod_eq_ok_iff.mpr ⟨isEmittable_summingMethod, rfl, rfl, rfl, rfl, rfl⟩

/-- An object that is given an array of two elements. -/
def summingStart : State Word where
  env name := if name = "items" then .ref (.address 1) else .scalar 0
  memory := ⟨[.object "Adder" [], .ints [3, 4]], []⟩

/-- The slots at the start of the method that adds up an array. -/
def summingSlots : Nat → Val Word
  | 0 => .ref (.address 0)
  | 1 => .ref (.address 1)
  | _ => .scalar 0

theorem stops_iff_summingMethod :
    generateMethod summingLinkage summingMethod {} =
      .ok summingCode { ({} : ComparisonCounts) with greaterEqual := 1 } ∧
    ∃ lines, readLines (summingCode.lines.map (Line.text "  " Instr.text)) = some lines ∧
      ∀ answer seen,
        (∃ ending, Stops (summingMethod.step (linkedWorld summingLinkage (.address 0) answer) true)
            ⟨0, summingStart⟩ ending ∧
            observeEnding summingLinkage summingMethod ending = seen) ↔
          ∃ halt, Stops (step answer true lines)
            ⟨0, [], summingSlots, linkMemory summingLinkage summingStart.memory⟩ halt ∧
            observeHalt summingMethod halt = seen := by
  have integers : ∀ instr ∈ summingMethod.body, HasIntegerIncrement instr := by
    simp +decide [summingMethod, HasIntegerIncrement]
  have holds : HoldsVariables summingMethod (.address 0) summingStart.env summingSlots :=
    ⟨by decide, fun _ => rfl⟩
  rcases (stops_iff_of_generateMethod generateMethod_summingMethod isUnambiguous_summingMethod
    hasPlainNames_summingMethod (by decide : IsIndent "  ")).2 with ⟨lines, linesEq, stops⟩
  exact ⟨generateMethod_summingMethod, lines, linesEq, fun answer =>
    stops (.address 0) answer true summingStart summingSlots (fun _ => integers) holds⟩

end ClassCompiler.StackCode
