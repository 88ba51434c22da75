import ClassCompiler.Proofs.Emission.Code
import ClassCompiler.Proofs.Names
import ClassCompiler.Proofs.Semantics.Body
import ClassCompiler.Proofs.Semantics.StackCode

/-!
# Labels of stack code

The labels of emitted lines are those of the body and those of its comparisons. No
comparison label stands there twice, because its number is taken once. So, if the
body itself defines no label of that form, every jump of the lines finds its label
where it was emitted.
-/

namespace ClassCompiler.StackCode

open ThreeAddress (Value definedLabels)

/-! ## Lines -/

/-- The label that stands on a line. -/
def Line.label? {ι : Type} : Line ι → Option String
  | .label name => some name
  | .instr _ => none

/-- The labels of lines, with repetitions. -/
def lineLabels (lines : Lines) : List String := lines.filterMap Line.label?

@[simp] theorem lineLabels_nil : lineLabels [] = [] := rfl

@[simp] theorem lineLabels_instr (instr : Instr) (rest : Lines) :
    lineLabels (.instr instr :: rest) = lineLabels rest := rfl

@[simp] theorem lineLabels_label (name : String) (rest : Lines) :
    lineLabels (.label name :: rest) = name :: lineLabels rest := rfl

@[simp] theorem lineLabels_append (first second : Lines) :
    lineLabels (first ++ second) = lineLabels first ++ lineLabels second :=
  List.filterMap_append

/-- A label that stands on one line is found there. -/
theorem labelPlace?_eq_some {lines : Lines} {name : String} {place : Nat}
    (once : (lineLabels lines).count name ≤ 1) (atPlace : lines[place]? = some (.label name)) :
    labelPlace? lines name = some place := by
  induction lines generalizing place with
  | nil => cases atPlace
  | cons line rest ih =>
      rw [labelPlace?, List.findIdx?_cons]
      cases place with
      | zero =>
          rw [List.getElem?_cons_zero, Option.some.injEq] at atPlace
          simp [atPlace]
      | succ place =>
          rw [List.getElem?_cons_succ] at atPlace
          have later : name ∈ lineLabels rest :=
            List.mem_filterMap.mpr ⟨_, List.mem_of_getElem? atPlace, rfl⟩
          have laterCount := List.one_le_count_iff.mpr later
          cases line with
          | instr op =>
              have found := ih once atPlace
              rw [labelPlace?] at found
              simp [found]
          | label other =>
              rw [lineLabels_label, List.count_cons] at once
              have differs : other ≠ name := by
                rintro rfl
                rw [beq_self_eq_true, if_pos rfl] at once
                omega
              have found := ih (by omega) atPlace
              rw [labelPlace?] at found
              simp [differs, found]

/-! ## Comparison labels -/

/-- A label of the form that comparisons have. -/
def IsComparisonLabel (label : String) : Prop :=
  ∃ kind number, label = trueLabel kind number ∨ label = endLabel kind number

theorem isWord_comparisonWord (kind : Comparison) : IsWord (comparisonWord kind) := by
  cases kind <;> simp [IsWord, comparisonWord]

theorem isWord_comparisonWord_end (kind : Comparison) : IsWord (comparisonWord kind ++ "End") := by
  cases kind <;> simp [IsWord, comparisonWord]

theorem comparisonWord_injective : Function.Injective comparisonWord := by
  intro kind other equal
  cases kind <;> cases other <;> simp_all [comparisonWord]

theorem comparisonWord_ne_end (kind other : Comparison) :
    comparisonWord kind ≠ comparisonWord other ++ "End" := by
  cases kind <;> cases other <;> decide

theorem trueLabel_inj {kind other : Comparison} {m n : Nat} :
    trueLabel kind m = trueLabel other n ↔ kind = other ∧ m = n := by
  rw [trueLabel, trueLabel, numbered_inj (isWord_comparisonWord kind) (isWord_comparisonWord other),
    comparisonWord_injective.eq_iff]

theorem endLabel_inj {kind other : Comparison} {m n : Nat} :
    endLabel kind m = endLabel other n ↔ kind = other ∧ m = n := by
  rw [endLabel, endLabel, numbered_inj (isWord_comparisonWord_end kind)
    (isWord_comparisonWord_end other), String.append_left_inj, comparisonWord_injective.eq_iff]

theorem trueLabel_ne_endLabel (kind other : Comparison) (m n : Nat) :
    trueLabel kind m ≠ endLabel other n := by
  rw [trueLabel, endLabel, Ne, numbered_inj (isWord_comparisonWord kind)
    (isWord_comparisonWord_end other)]
  exact fun equal => comparisonWord_ne_end kind other equal.1

/-- A comparison label determines its kind and its number. -/
theorem comparisonLabel_inj {label : String} {kind other : Comparison} {m n : Nat}
    (first : label = trueLabel kind m ∨ label = endLabel kind m)
    (second : label = trueLabel other n ∨ label = endLabel other n) : kind = other ∧ m = n := by
  rcases first with rfl | rfl <;> rcases second with equal | equal
  · exact trueLabel_inj.mp equal
  · exact absurd equal (trueLabel_ne_endLabel _ _ _ _)
  · exact absurd equal.symm (trueLabel_ne_endLabel _ _ _ _)
  · exact endLabel_inj.mp equal

/-- The labels of structured statements are no comparison labels. -/
theorem not_isComparisonLabel_labelName (kind : LabelKind) (number : Nat) :
    ¬IsComparisonLabel (labelName kind number) := by
  rintro ⟨comparison, other, equal | equal⟩
  · rw [labelName, trueLabel, numbered_inj kind.isWord_word (isWord_comparisonWord comparison)]
      at equal
    cases kind <;> cases comparison <;> exact absurd equal.1 (by decide)
  · rw [labelName, endLabel, numbered_inj kind.isWord_word (isWord_comparisonWord_end comparison)]
      at equal
    cases kind <;> cases comparison <;> exact absurd equal.1 (by decide)

/-! ## Labels of emitted code -/

section

variable {linkage : Linkage} {isMain : Bool} {names : List String} {counts : ComparisonCounts}

@[simp] theorem lineLabels_loadCode (names : List String) (value : Value) :
    lineLabels (loadCode names value) = [] := by
  induction value with
  | const constant => cases constant <;> rfl
  | element array position ty arrayLabels positionLabels =>
      simp [loadCode, arrayLabels, positionLabels]
  | _ => rfl

@[simp] theorem lineLabels_loadsCode (names : List String) (values : List Value) :
    lineLabels (loadsCode names values) = [] := by
  induction values with
  | nil => rfl
  | cons value rest ih =>
      rw [loadsCode, List.flatMap_cons, lineLabels_append, lineLabels_loadCode]
      exact ih

@[simp] theorem lineLabels_storeCode (names : List String) (dest : Value) :
    lineLabels (storeCode names dest) = [] := by
  cases dest <;> rfl

@[simp] theorem lineLabels_callCode (linkage : Linkage) (names : List String)
    (call : ThreeAddress.Call) : lineLabels (callCode linkage names call) = [] := by
  unfold callCode
  split <;> simp

@[simp] theorem lineLabels_resultCode (names : List String) (dest : Option Value)
    (call : ThreeAddress.Call) : lineLabels (resultCode names dest call) = [] := by
  cases dest with
  | some dest => exact lineLabels_storeCode names dest
  | none => cases returns : call.returnsValue <;> simp [resultCode, returns]

/-- The labels of an instruction: the one it defines, and those of a comparison. -/
def instrLabels (counts : ComparisonCounts) : ThreeAddress.Instr → List String
  | .label name => [name]
  | .binary _ (.compare kind) _ _ =>
      [trueLabel kind (counts.next kind), endLabel kind (counts.next kind)]
  | _ => []

theorem lineLabels_instrCode (instr : ThreeAddress.Instr) :
    lineLabels (instrCode linkage isMain names counts instr) = instrLabels counts instr := by
  cases instr with
  | assign dest value => cases dest <;> simp [instrCode, instrLabels]
  | binary dest op left right =>
      cases found : increment? dest op left right with
      | some increment =>
          rcases exists_arith_of_increment? found with ⟨arith, rfl⟩
          simp [instrCode, found, instrLabels]
      | none =>
          cases op <;>
            simp [instrCode, found, operatorCode, comparisonCode, instrLabels]
  | ret value =>
      cases value with
      | none => rfl
      | some value => cases isMain <;> simp [instrCode, instrLabels]
  | _ => simp [instrCode, instrLabels]

/-- An instruction brings the label it defines, or is a comparison that brings two
labels with the next number of its kind. -/
theorem instrLabels_cases (counts : ComparisonCounts) (instr : ThreeAddress.Instr) :
    (instrLabels counts instr = instr.label?.toList ∧ instrCounts counts instr = counts) ∨
      ∃ kind, instr.label? = none ∧ instrCounts counts instr = counts.skip kind ∧
        instrLabels counts instr =
          [trueLabel kind (counts.next kind), endLabel kind (counts.next kind)] := by
  cases instr with
  | binary dest op left right =>
      cases op with
      | compare kind => exact .inr ⟨kind, rfl, rfl, rfl⟩
      | arith op | and => exact .inl ⟨rfl, rfl⟩
  | _ => exact .inl ⟨rfl, rfl⟩

/-- A label of emitted code is one of the body, or that of a comparison whose number
had not been taken before. -/
theorem mem_lineLabels_bodyCode {body : ThreeAddress.Code} {label : String}
    (member : label ∈ lineLabels (bodyCode linkage isMain names counts body)) :
    label ∈ definedLabels body ∨ ∃ kind number, counts.next kind ≤ number ∧
      (label = trueLabel kind number ∨ label = endLabel kind number) := by
  induction body generalizing counts with
  | nil => cases member
  | cons instr rest ih =>
      rw [bodyCode, lineLabels_append, lineLabels_instrCode, List.mem_append] at member
      rw [ThreeAddress.definedLabels_cons, List.mem_append]
      rcases instrLabels_cases counts instr with
        ⟨labelsEq, countsEq⟩ | ⟨kind, _, countsEq, labelsEq⟩
      · rw [labelsEq, countsEq] at member
        rcases member with here | later
        · exact .inl (.inl here)
        · rcases ih later with defined | comparison
          · exact .inl (.inr defined)
          · exact .inr comparison
      · rw [labelsEq, countsEq] at member
        rcases member with here | later
        · exact .inr ⟨kind, counts.next kind, Nat.le_refl _, by simpa using here⟩
        · rcases ih later with defined | ⟨other, number, lower, labelEq⟩
          · exact .inl (.inr defined)
          · rw [ComparisonCounts.next_skip] at lower
            exact .inr ⟨other, number, Nat.le_of_add_right_le lower, labelEq⟩

/-- Labels that no comparison can have are defined as often as in the body. -/
theorem count_lineLabels_bodyCode {body : ThreeAddress.Code} {label : String}
    (foreign : ¬IsComparisonLabel label) :
    (lineLabels (bodyCode linkage isMain names counts body)).count label =
      (definedLabels body).count label := by
  induction body generalizing counts with
  | nil => rfl
  | cons instr rest ih =>
      rw [bodyCode, lineLabels_append, lineLabels_instrCode, ThreeAddress.definedLabels_cons,
        List.count_append, List.count_append, ih]
      rcases instrLabels_cases counts instr with ⟨labelsEq, _⟩ | ⟨kind, noLabel, _, labelsEq⟩
      · rw [labelsEq]
      · rw [labelsEq, noLabel, List.count_eq_zero.mpr]
        · rfl
        · intro member
          exact foreign ⟨kind, counts.next kind, by simpa using member⟩

/-- A label that the body does not define is not emitted twice. -/
theorem count_lineLabels_bodyCode_le_one {body : ThreeAddress.Code} {label : String}
    (foreign : label ∉ definedLabels body) :
    (lineLabels (bodyCode linkage isMain names counts body)).count label ≤ 1 := by
  induction body generalizing counts with
  | nil => exact Nat.zero_le 1
  | cons instr rest ih =>
      rw [ThreeAddress.definedLabels_cons, List.mem_append, not_or] at foreign
      have restCount : (lineLabels (bodyCode linkage isMain names (instrCounts counts instr)
          rest)).count label ≤ 1 := ih foreign.2
      rw [bodyCode, lineLabels_append, lineLabels_instrCode, List.count_append]
      rcases instrLabels_cases counts instr with
        ⟨labelsEq, countsEq⟩ | ⟨kind, _, countsEq, labelsEq⟩
      · rw [labelsEq, List.count_eq_zero.mpr foreign.1, Nat.zero_add]
        exact restCount
      · rw [labelsEq]
        by_cases here :
            label ∈ [trueLabel kind (counts.next kind), endLabel kind (counts.next kind)]
        · have notLater : label ∉ lineLabels (bodyCode linkage isMain names
              (instrCounts counts instr) rest) := by
            intro later
            rcases mem_lineLabels_bodyCode later with defined | ⟨other, number, lower, labelEq⟩
            · exact foreign.2 defined
            · rcases comparisonLabel_inj (by simpa using here) labelEq with ⟨rfl, rfl⟩
              rw [countsEq, ComparisonCounts.next_skip, if_pos rfl] at lower
              omega
          rw [List.count_eq_zero.mpr notLater, Nat.add_zero]
          refine List.nodup_iff_count_le_one.mp ?_ label
          simpa using trueLabel_ne_endLabel kind kind _ _
        · rw [List.count_eq_zero.mpr here, Nat.zero_add]
          exact restCount

end

end ClassCompiler.StackCode
