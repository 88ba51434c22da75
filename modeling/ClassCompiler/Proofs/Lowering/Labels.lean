import ClassCompiler.Proofs.Lowering.Growth

/-!
# Labels of lowered code

Every label that a statement defines was taken from the counters between the
states before and after it, and none is defined twice. So a label that is defined
at a place is found there.
-/

namespace ClassCompiler.ThreeAddress

open LoweringState

/-! ## Labels between two states -/

/-- A label that was taken between two states. -/
def TakenBetween (state after : LoweringState) (label : String) : Prop :=
  ∃ kind number, label = labelName kind number ∧ state.names.nextLabel kind ≤ number ∧
    number < after.names.nextLabel kind

/-- In the second state at least as many labels of each kind have been taken. -/
def TakesLabels (state after : LoweringState) : Prop :=
  ∀ kind, state.names.nextLabel kind ≤ after.names.nextLabel kind

/-- Labels that were taken between two states, none of them twice. -/
structure Labelled (state after : LoweringState) (labels : List String) : Prop where
  distinct : labels.Nodup
  taken : ∀ label ∈ labels, TakenBetween state after label

theorem Labelled.nil (state after : LoweringState) : Labelled state after [] :=
  ⟨List.nodup_nil, by simp⟩

theorem TakenBetween.mono {first state after last : LoweringState} {label : String}
    (taken : TakenBetween state after label) (before : TakesLabels first state)
    (later : TakesLabels after last) : TakenBetween first last label := by
  rcases taken with ⟨kind, number, rfl, lower, upper⟩
  exact ⟨kind, number, rfl, (before kind).trans lower, Nat.lt_of_lt_of_le upper (later kind)⟩

theorem Labelled.mono {first state after last : LoweringState} {labels : List String}
    (labelled : Labelled state after labels) (before : TakesLabels first state)
    (later : TakesLabels after last) : Labelled first last labels :=
  ⟨labelled.distinct, fun label member => (labelled.taken label member).mono before later⟩

theorem Labelled.perm {state after : LoweringState} {labels others : List String}
    (labelled : Labelled state after labels) (same : labels.Perm others) :
    Labelled state after others :=
  ⟨same.nodup_iff.mp labelled.distinct,
    fun label member => labelled.taken label (same.mem_iff.mpr member)⟩

/-- Labels that were taken one after the other differ. -/
theorem Labelled.append {state middle after : LoweringState} {labels others : List String}
    (first : Labelled state middle labels) (second : Labelled middle after others)
    (growsFirst : TakesLabels state middle) (growsSecond : TakesLabels middle after) :
    Labelled state after (labels ++ others) where
  distinct := by
    refine List.Nodup.append first.distinct second.distinct ?_
    intro label inFirst inSecond
    rcases first.taken label inFirst with ⟨kind, number, rfl, _, upper⟩
    rcases second.taken _ inSecond with ⟨otherKind, otherNumber, same, lower, _⟩
    rcases labelName_inj.mp same with ⟨rfl, rfl⟩
    omega
  taken := by
    intro label member
    rcases List.mem_append.mp member with inFirst | inSecond
    · exact (first.taken label inFirst).mono (fun _ => Nat.le_refl _) growsSecond
    · exact (second.taken label inSecond).mono growsFirst (fun _ => Nat.le_refl _)

theorem labelled_nextLabels (state : LoweringState) {first second : LabelKind}
    (differ : first ≠ second) :
    Labelled state (state.withLabels first second)
      [state.nextLabel first, state.nextLabel second] where
  distinct := by
    simp [LoweringState.nextLabel, labelName_inj, differ]
  taken := by
    intro label member
    rw [List.mem_cons, List.mem_singleton] at member
    rcases member with rfl | rfl
    · exact ⟨first, _, rfl, Nat.le_refl _, by simp [withLabels, differ]⟩
    · exact ⟨second, _, rfl, Nat.le_refl _, by simp [withLabels, differ.symm]⟩

/-! ## Labels of statements -/

variable {table : SymbolTable}

theorem definedLabels_of_isStraight {code : Code} (straight : ∀ instr ∈ code, instr.IsStraight) :
    definedLabels code = [] := by
  rw [definedLabels, List.filterMap_eq_nil_iff]
  intro instr member
  have isStraight := straight instr member
  cases instr with
  | label name => exact isStraight.elim
  | _ => rfl

theorem definedLabels_completeBody (signature : MethodSignature) (code : Code) :
    definedLabels (completeBody signature code) = definedLabels code := by
  rw [completeBody_eq]
  split
  · simp [Instr.label?]
  · rfl

/-- A statement defines labels that it took, and each of them once. -/
theorem LowersStmt.labelled {stmt : Stmt} {state after : LoweringState} {code : Code}
    (lowers : LowersStmt table stmt state code after) :
    Labelled state after (definedLabels code) := by
  induction lowers with
  | assignOperator _ _ _ lowersLeft lowersRight =>
      rw [definedLabels_append, definedLabels_append,
        definedLabels_of_isStraight lowersLeft.isStraight,
        definedLabels_of_isStraight lowersRight.isStraight]
      exact .nil _ _
  | assignCall _ _ lowers | assignValue _ _ _ lowers | assignField _ _ lowers | exprCall lowers
  | returnValue _ lowers =>
      rw [definedLabels_append, definedLabels_of_isStraight lowers.isStraight]
      exact .nil _ _
  | assignElement _ lowers lowersArray lowersPosition =>
      rw [definedLabels_append, definedLabels_append, definedLabels_append,
        definedLabels_of_isStraight lowers.isStraight,
        definedLabels_of_isStraight lowersArray.isStraight,
        definedLabels_of_isStraight lowersPosition.isStraight]
      exact .nil _ _
  | exprValue _ _ lowers =>
      rw [definedLabels_of_isStraight lowers.isStraight]
      exact .nil _ _
  | returnNothing _ => exact .nil _ _
  | @ifElse cond thenBranch elseBranch state first second after lowered elseCode thenCode
      lowersCond lowersElse lowersThen labelledElse labelledThen =>
      have taken := (labelled_nextLabels first (show LabelKind.ifThen ≠ .ifEnd by decide)).append
        (labelledElse.append labelledThen lowersElse.extends.labels lowersThen.extends.labels)
        (extends_withLabels _ _ _).labels (lowersElse.extends.trans lowersThen.extends).labels
      refine (taken.mono lowersCond.extends.labels (fun _ => Nat.le_refl _)).perm
        (List.perm_iff_count.mpr fun label => ?_)
      simp only [definedLabels_append, definedLabels_cons, definedLabels_nil, Instr.label?,
        definedLabels_of_isStraight lowersCond.isStraight, List.count_append, List.count_cons,
        List.count_nil, Option.toList]
      omega
  | @whileLoop cond body state first after lowered bodyCode lowersCond lowersBody labelledBody =>
      have growsBefore := lowersCond.extends.trans (extends_withTemp table first Ty.boolean)
      have taken := (labelled_nextLabels state
        (show LabelKind.whileCond ≠ .whileEnd by decide)).append
        (labelledBody.mono growsBefore.labels (fun _ => Nat.le_refl _))
        (extends_withLabels _ _ _).labels (growsBefore.trans lowersBody.extends).labels
      refine taken.perm (List.perm_iff_count.mpr fun label => ?_)
      simp only [definedLabels_append, definedLabels_cons, definedLabels_nil, Instr.label?,
        definedLabels_of_isStraight lowersCond.isStraight, List.count_append, List.count_cons,
        List.count_nil, Option.toList]
      omega
  | blockNil _ => exact .nil _ _
  | blockCons lowersFirst lowersRest labelledFirst labelledRest =>
      rw [definedLabels_append]
      exact labelledFirst.append labelledRest lowersFirst.extends.labels lowersRest.extends.labels

end ClassCompiler.ThreeAddress
