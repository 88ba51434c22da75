import ClassCompiler.Proofs.Emission.Instructions
import ClassCompiler.Proofs.Emission.Operations

/-!
# What a comparison leaves

The code of a comparison subtracts and looks at the sign of the difference, which is a
word and so may have wrapped around. Equality is not affected. An order comparison
leaves what holds of the integers as long as their difference is a word, and the
opposite where it is not.
-/

namespace ClassCompiler.StackCode

open Semantics Effects Emission

/-! ## Signs of differences -/

/-- The difference of two words is a word. -/
def DifferenceFits (left right : Word) : Prop :=
  -2147483648 ≤ left.toInt - right.toInt ∧ left.toInt - right.toInt ≤ 2147483647

instance (left right : Word) : Decidable (DifferenceFits left right) :=
  inferInstanceAs (Decidable (_ ∧ _))

/-- A difference that is no word wraps around once, to the other sign. -/
theorem toInt_sub_cases (left right : Word) :
    (DifferenceFits left right ∧ (left - right).toInt = left.toInt - right.toInt) ∨
      (¬ DifferenceFits left right ∧
        (left.toInt < right.toInt ∧ 0 < (left - right).toInt ∨
          right.toInt < left.toInt ∧ (left - right).toInt < 0)) := by
  have leftLower := left.le_toInt
  have leftUpper := left.toInt_lt
  have rightLower := right.le_toInt
  have rightUpper := right.toInt_lt
  rw [Int32.toInt_sub, Int.bmod_def]
  unfold DifferenceFits
  split
  · omega
  · omega

/-- Equality, and an order if the difference is a word, hold between the difference and
zero as they hold between the words. -/
theorem holds_sub {kind : Comparison} {left right : Word}
    (isExact : kind = .equal ∨ kind = .notEqual ∨ DifferenceFits left right) :
    holds kind (left - right).toInt 0 = holds kind left.toInt right.toInt := by
  rcases toInt_sub_cases left right with ⟨_, differenceEq⟩ | ⟨notFits, wraps⟩
  · rw [differenceEq]
    cases kind <;> simp only [holds, decide_eq_decide] <;> omega
  · -- A difference that wraps is not zero.
    rcases isExact with rfl | rfl | fits
    · simp only [holds, decide_eq_decide]
      omega
    · simp only [holds, decide_eq_decide]
      omega
    · exact absurd fits notFits

/-- If the difference is no word, an order holds between it and zero exactly if it does not
hold between the words. -/
theorem holds_sub_of_not_fits {kind : Comparison} {left right : Word} (notEqual : kind ≠ .equal)
    (notUnequal : kind ≠ .notEqual) (notFits : ¬ DifferenceFits left right) :
    holds kind (left - right).toInt 0 = !holds kind left.toInt right.toInt := by
  rcases toInt_sub_cases left right with ⟨fits, _⟩ | ⟨_, wraps⟩
  · exact absurd fits notFits
  · cases kind with
    | equal => exact absurd rfl notEqual
    | notEqual => exact absurd rfl notUnequal
    | _ =>
        simp only [holds, ← decide_not, decide_eq_decide]
        omega

/-! ## Code -/

/-- Code that takes two words from the stack and leaves one, wherever it stands among
lines without its labels. -/
def Leaves (code : Lines) (left right value : Word) : Prop :=
  ∀ (answer : List LinkedCall → Heap → Answer) (checked : Bool) (before behind : Lines),
    (∀ name ∈ lineLabels code, name ∉ lineLabels before ∧ name ∉ lineLabels behind) →
    ∀ (base : List (Val Word)) (slots : Nat → Val Word) (memory : Store LinkedCall),
      ∃ count, Steps (step answer checked (before ++ code ++ behind)) count
        ⟨before.length, ⟨.scalar right :: .scalar left :: base, slots, memory⟩⟩
        ⟨before.length + code.length, ⟨.scalar value :: base, slots, memory⟩⟩

theorem nodup_lineLabels_comparisonCode (kind : Comparison) (number : Nat) :
    (lineLabels (comparisonCode kind number)).Nodup := by
  simp [comparisonCode, trueLabel_ne_endLabel]

/-- The code of a comparison leaves whether it holds between the difference and zero. -/
theorem leaves_comparisonCode (kind : Comparison) (number : Nat) (left right : Word) :
    Leaves (comparisonCode kind number) left right
      (.ofBool (holds kind (left - right).toInt 0)) := by
  intro answer checked before behind apart base slots memory
  let host : Host := ⟨default, default, before ++ comparisonCode kind number ++ behind, default,
    answer, checked⟩
  have placed : PlacedAt (comparisonCode kind number) before.length host.lines := by
    refine ⟨behind, ?_⟩
    change _ = (before ++ comparisonCode kind number ++ behind).drop before.length
    rw [List.append_assoc, List.drop_left]
  have once {name : String} (member : name ∈ lineLabels (comparisonCode kind number)) :
      (lineLabels host.lines).count name ≤ 1 := by
    obtain ⟨notBefore, notBehind⟩ := apart name member
    change (lineLabels (before ++ comparisonCode kind number ++ behind)).count name ≤ 1
    rw [lineLabels_append, lineLabels_append, List.count_append, List.count_append,
      List.count_eq_zero_of_not_mem notBefore, List.count_eq_zero_of_not_mem notBehind,
      Nat.zero_add, Nat.add_zero]
    exact List.nodup_iff_count_le_one.mp (nodup_lineLabels_comparisonCode kind number) name
  have subtracts := Host.step_of_isStraight placed.head trivial
    ⟨.scalar right :: .scalar left :: base, slots, memory⟩
  exact ⟨5, .head subtracts (Host.steps_testSign (once (by simp [comparisonCode]))
    (once (by simp [comparisonCode])) placed.tail (left - right) base slots memory)⟩

/-- Code leaves at most one value in the place of two words. -/
theorem Leaves.unique {code : Lines} {left right first second : Word}
    (leavesFirst : Leaves code left right first) (leavesSecond : Leaves code left right second) :
    first = second := by
  -- Alone, the code falls through behind its last line, with the value on the stack.
  have falls {value : Word} (leaves : Leaves code left right value) :
      Stops (step default true code) ⟨0, ⟨[.scalar right, .scalar left], default, default⟩⟩
        ⟨.fellThrough, ⟨[.scalar value], default, default⟩⟩ := by
    obtain ⟨count, run⟩ := leaves default true [] []
      (fun _ _ => ⟨List.not_mem_nil, List.not_mem_nil⟩) [] default default
    rw [List.nil_append, List.append_nil, List.length_nil, Nat.zero_add] at run
    refine .of_steps run (.of_stop ?_)
    rw [step, List.getElem?_eq_none (Nat.le_refl _)]
  have same := (falls leavesFirst).unique (falls leavesSecond)
  simpa using same

/-! ## Emitted comparisons -/

/-- A comparison of two values is emitted as code that leaves one value for them. It is
the truth value of the comparison of the integers, unless the comparison is one of order
and the difference of the integers is no word: then it is the opposite. -/
theorem leaves_of_emitComparison (kind : Comparison) (emitter : Emitter)
    (enough : 2 ≤ emitter.frame.depth) :
    ∃ code after, emitComparison kind emitter = .ok () after ∧
      after.frame.lines = emitter.frame.lines ++ code.toArray ∧
      after.frame.depth = emitter.frame.depth - 1 ∧
      ∀ left right : Word,
        (kind = .equal ∨ kind = .notEqual ∨ DifferenceFits left right →
          Leaves code left right (.ofBool (holds kind left.toInt right.toInt))) ∧
        (kind ≠ .equal → kind ≠ .notEqual → ¬ DifferenceFits left right →
          Leaves code left right (.ofBool (!holds kind left.toInt right.toInt))) := by
  obtain ⟨frame, counts⟩ := emitter
  refine ⟨comparisonCode kind (counts.next kind), _,
    (succeeds_emitComparison kind _ _).mpr ⟨enough, rfl, rfl⟩, rfl, rfl, fun left right => ?_⟩
  have leaves := leaves_comparisonCode kind (counts.next kind) left right
  constructor
  · intro isExact
    rwa [holds_sub isExact] at leaves
  · intro notEqual notUnequal notFits
    rwa [holds_sub_of_not_fits notEqual notUnequal notFits] at leaves

/-- An emitter with two values on the stack. -/
def pairEmitter : Emitter := ⟨{ method := "below", slots := ∅, depth := 2, maxDepth := 2 }, {}⟩

/-- At the ends of the range. -/
theorem leaves_of_emitComparison_greaterEqual :
    ∃ code after, emitComparison .greaterEqual pairEmitter = .ok () after ∧
      after.frame.lines = code.toArray ∧
      Leaves code 2147483647 0 1 ∧ Leaves code (-2147483648) 0 0 ∧
      Leaves code 2147483647 (-1) 0 := by
  obtain ⟨code, after, run, lines, _, leaves⟩ :=
    leaves_of_emitComparison .greaterEqual pairEmitter (by decide)
  refine ⟨code, after, run, ?_, ?_, ?_, ?_⟩
  · exact lines.trans Array.empty_append
  · exact (leaves 2147483647 0).1 (.inr (.inr (by decide)))
  · exact (leaves (-2147483648) 0).1 (.inr (.inr (by decide)))
  · exact (leaves 2147483647 (-1)).2 (by decide) (by decide) (by decide)

/-- The least word is below one, but its comparison with one leaves that it is not. -/
theorem not_leaves_truth_least_word :
    ∃ after, emitComparison .less pairEmitter = .ok () after ∧
      holds .less (-2147483648 : Word).toInt (1 : Word).toInt = true ∧
      Leaves after.frame.lines.toList (-2147483648) 1 0 ∧
      ¬ Leaves after.frame.lines.toList (-2147483648) 1
        (.ofBool (holds .less (-2147483648 : Word).toInt (1 : Word).toInt)) := by
  have leaves : Leaves (comparisonCode .less 0) (-2147483648) 1 0 :=
    leaves_comparisonCode .less 0 (-2147483648) 1
  refine ⟨_, rfl, by decide, leaves, fun leavesTruth => ?_⟩
  exact absurd (leaves.unique leavesTruth) (by decide)

end ClassCompiler.StackCode
