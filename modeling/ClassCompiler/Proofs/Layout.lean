import ClassCompiler.Proofs.Emission.Independence
import ClassCompiler.Proofs.Emission.Rows

/-!
# Options change the layout only

A class is written with all options or with none, and then fails with the same error. Its
lines are those of its rows, in which the options fill the gaps: the indent stands before
limits and instructions, the comment on the constructor is there or not, and the root
class is named as the parent of a class that names none. A class that names its parent is
written alike whatever the root class is.
-/

namespace ClassCompiler.StackCode

open ThreeAddress (ClassUnit)

/-! ## Lines of rows -/

/-- A row as rows of one line each. Only the first one has a gap. -/
def Row.split : Row → List Row
  | .plain text => .plain (firstLine text) :: (laterLines text).map .plain
  | .indented text => .indented (firstLine text) :: (laterLines text).map .plain
  | .parentCall member => .parentCall (firstLine member) :: (laterLines member).map .plain
  | row => [row]

/-- The rows of a class, of one line each. -/
def listing (unit : ClassUnit) : List Row := (classRows unit).flatMap Row.split

section

variable {options : Options} {start : Comparison → Nat}

theorem written_map_plain (lines : List String) :
    written options start (lines.map .plain) = lines := by
  rw [written, List.filterMap_map]
  exact List.filterMap_some

theorem unlines_written_split (row : Row) :
    unlines (written options start row.split) = unlines (written options start [row]) := by
  cases row with
  | plain text =>
      have splitEq := unlines_split "" text
      rw [String.empty_append, String.empty_append] at splitEq
      rw [Row.split, written_cons _ _ rfl, written_map_plain, splitEq]
      simp [written, Row.line?]
  | indented text =>
      rw [Row.split, written_cons _ _ rfl, written_map_plain, unlines_split]
      simp [written, Row.line?]
  | parentCall member =>
      rw [Row.split, written_cons _ _ rfl, written_map_plain, ← String.append_assoc, unlines_split]
      simp [written, Row.line?, String.append_assoc]
  | _ => rfl

theorem unlines_written_flatMap_split (rows : List Row) :
    unlines (written options start (rows.flatMap Row.split)) =
      unlines (written options start rows) := by
  induction rows with
  | nil => rfl
  | cons row rest ih =>
      rw [List.flatMap_cons, written_append, unlines_append, ih,
        unlines_written_split, ← unlines_append, ← written_append, List.singleton_append]

end

theorem isUnbroken_trueLabel (kind : Comparison) (number : Nat) :
    IsUnbroken (trueLabel kind number) := by
  refine isUnbroken_append.mpr ⟨?_, isUnbroken_toString number⟩
  cases kind <;> simp [IsUnbroken, comparisonWord]

theorem isUnbroken_endLabel (kind : Comparison) (number : Nat) :
    IsUnbroken (endLabel kind number) := by
  refine isUnbroken_append.mpr ⟨?_, isUnbroken_toString number⟩
  cases kind <;> simp [IsUnbroken, comparisonWord]

/-- The options put no line breaks into a listing. -/
structure UnbrokenOptions (options : Options) : Prop where
  indent : IsUnbroken options.indent
  rootClass : IsUnbroken options.rootClass

/-- A text consists of lines. -/
structure HasLines (text : String) (lines : List String) : Prop where
  text_eq : text = unlines lines
  unbroken : ∀ line ∈ lines, IsUnbroken line

/-- Rows whose own text has no line break. -/
def Row.IsOneLine : Row → Prop
  | .plain text | .indented text | .parentCall text => IsUnbroken text
  | _ => True

theorem Row.isOneLine_split (row : Row) : ∀ piece ∈ row.split, piece.IsOneLine := by
  have later (text : String) : ∀ piece ∈ (laterLines text).map Row.plain, piece.IsOneLine := by
    rw [List.forall_mem_map]
    exact fun line => isUnbroken_of_mem_laterLines
  cases row with
  | plain text | indented text =>
      rw [Row.split, List.forall_mem_cons]
      exact ⟨isUnbroken_firstLine text, later text⟩
  | parentCall member =>
      rw [Row.split, List.forall_mem_cons]
      exact ⟨isUnbroken_firstLine member, later member⟩
  | _ =>
      intro piece member
      cases List.mem_singleton.mp member
      trivial

section

variable {options : Options} {start : Comparison → Nat}

theorem Row.IsOneLine.isUnbroken {row : Row} (isOneLine : row.IsOneLine)
    (unbroken : UnbrokenOptions options) {line : String}
    (lineEq : row.line? options start = some line) : IsUnbroken line := by
  have atIndent {text : String} (isText : IsUnbroken text) : IsUnbroken (options.indent ++ text) :=
    isUnbroken_append.mpr ⟨unbroken.indent, isText⟩
  have atColon {text : String} (isText : IsUnbroken text) : IsUnbroken (text ++ ":") :=
    isUnbroken_append.mpr ⟨isText, by simp [IsUnbroken]⟩
  cases row with
  | comment =>
      obtain ⟨_, ⟨⟩⟩ := Option.ite_none_right_eq_some.mp lineEq
      simp [IsUnbroken]
  | plain text =>
      cases lineEq
      exact isOneLine
  | indented text =>
      cases lineEq
      exact atIndent isOneLine
  | parent =>
      cases lineEq
      exact isUnbroken_append.mpr ⟨by simp [IsUnbroken], unbroken.rootClass⟩
  | parentCall member =>
      cases lineEq
      refine atIndent (isUnbroken_append.mpr ⟨isUnbroken_append.mpr ⟨?_, by simp [IsUnbroken]⟩,
        isOneLine⟩)
      exact isUnbroken_append.mpr ⟨by simp [IsUnbroken, ThreeAddress.InvokeMode.keyword],
        unbroken.rootClass⟩
  | branch kind number =>
      cases lineEq
      refine atIndent (isUnbroken_append.mpr ⟨?_, isUnbroken_trueLabel _ _⟩)
      cases kind <;> simp [IsUnbroken, branchWord]
  | skip kind number =>
      cases lineEq
      exact atIndent (isUnbroken_append.mpr ⟨by simp [IsUnbroken], isUnbroken_endLabel _ _⟩)
  | holds kind number =>
      cases lineEq
      exact atColon (isUnbroken_trueLabel _ _)
  | past kind number =>
      cases lineEq
      exact atColon (isUnbroken_endLabel _ _)

/-- What is written for rows consists of the lines of their parts. -/
theorem hasLines_written (unbroken : UnbrokenOptions options) (rows : List Row) :
    HasLines (unlines (written options start rows))
      (written options start (rows.flatMap Row.split)) := by
  refine ⟨(unlines_written_flatMap_split rows).symm, ?_⟩
  intro line member
  obtain ⟨piece, inSplit, lineEq⟩ := List.mem_filterMap.mp member
  obtain ⟨row, _, isPiece⟩ := List.mem_flatMap.mp inSplit
  exact (row.isOneLine_split piece isPiece).isUnbroken unbroken lineEq

end

/-! ## Classes -/

/-- The root class is not looked at if the class names its parent. -/
theorem generateClass_eq_of_superClass {unit : ClassUnit} (named : unit.superClass.isSome = true)
    (rootClass otherRoot : String) :
    generateClass rootClass unit = generateClass otherRoot unit := by
  obtain ⟨parent, parentEq⟩ := Option.isSome_iff_exists.mp named
  have linkageEq : Linkage.ofClass rootClass unit = Linkage.ofClass otherRoot unit := by
    rw [Linkage.ofClass_eq, Linkage.ofClass_eq, declaredParent?, parentEq]
    rfl
  rw [generateClass, generateClass, linkageEq]

/-- Two listings of a class both fail with the same error, or consist of the same rows, in
which the options fill the gaps. If the class names its parent, the root class makes no
difference at all. -/
theorem options_change_layout_only (unit : ClassUnit) (counts : ComparisonCounts)
    {first second : Options} (firstUnbroken : UnbrokenOptions first)
    (secondUnbroken : UnbrokenOptions second) :
    ((∃ error left right, assemble first unit counts = .error error left ∧
        assemble second unit counts = .error error right) ∨
      ∃ text other after, assemble first unit counts = .ok text after ∧
        assemble second unit counts = .ok other after ∧
        HasLines text (written first counts.next (listing unit)) ∧
        HasLines other (written second counts.next (listing unit))) ∧
    (unit.superClass.isSome = true → ∀ rootClass,
      assemble { first with rootClass } unit = assemble first unit) := by
  constructor
  · rcases hasClassCode_or_failure unit with hasCode | ⟨error, fails⟩
    · exact .inr ⟨_, _, _, assemble_eq_ok hasCode first counts,
        assemble_eq_ok hasCode second counts,
        hasLines_written firstUnbroken _, hasLines_written secondUnbroken _⟩
    · obtain ⟨left, firstFails⟩ := exists_of_failure? (fails first counts)
      obtain ⟨right, secondFails⟩ := exists_of_failure? (fails second counts)
      exact .inl ⟨error, left, right, firstFails, secondFails⟩
  · intro named rootClass
    rw [assemble, assemble, generateClass_eq_of_superClass named rootClass first.rootClass]
    rfl

/-- Options with another indent and another root class, and without comments. -/
def bareOptions : Options := ⟨"\t", "base/Root", false⟩

/-- A class without parent is written with both options. -/
theorem options_change_layout_gateUnit :
    UnbrokenOptions {} ∧ UnbrokenOptions bareOptions ∧
      ∃ text other after, assemble {} gateUnit {} = .ok text after ∧
        assemble bareOptions gateUnit {} = .ok other after ∧
        HasLines text (written {} ({} : ComparisonCounts).next (listing gateUnit)) ∧
        HasLines other (written bareOptions ({} : ComparisonCounts).next (listing gateUnit)) := by
  have unbroken : UnbrokenOptions {} := ⟨by decide, by decide⟩
  have bareUnbroken : UnbrokenOptions bareOptions := ⟨by decide, by decide⟩
  refine ⟨unbroken, bareUnbroken, ?_⟩
  rcases (options_change_layout_only gateUnit {} unbroken bareUnbroken).1 with
    ⟨_, _, _, fails, _⟩ | succeeds
  · rw [assemble_eq_ok hasClassCode_gateUnit] at fails
    cases fails
  · exact succeeds

example :
    written bareOptions (fun _ => 0) ((listing gateUnit).take 9) =
      [".class public Gate", ".super base/Root", "", ".field public 'limit' I", "",
        ".method public <init>()V", "\t.limit stack 1", "\t.limit locals 1"] := by
  decide +kernel

end ClassCompiler.StackCode

namespace ClassCompiler

open StackCode

/-- What holds of the lines of a compiled class can be evaluated: they are those of the rows
of the lowered class. -/
theorem exists_compile_of_lines (table : SymbolTable) (program : Program)
    (holds : List String → Prop) [DecidablePred holds]
    (check : (ThreeAddress.lowerFresh table program).toOption.any (fun unit =>
      decide (HasClassCode unit ∧
        holds (written {} ({} : ComparisonCounts).next (listing unit) ++ [""]))) = true) :
    ∃ compiled, compile {} table program = .ok compiled ∧ holds (linesOf compiled.assembly) := by
  cases lowered : ThreeAddress.lowerFresh table program with
  | error error =>
      rw [lowered] at check
      cases check
  | ok unit =>
      rw [lowered] at check
      obtain ⟨hasCode, isHeld⟩ := of_decide_eq_true check
      have hasLines := @hasLines_written {} ({} : ComparisonCounts).next ⟨by decide, by decide⟩
        (classRows unit)
      refine ⟨⟨unit, unlines (written {} ({} : ComparisonCounts).next (classRows unit))⟩, ?_, ?_⟩
      · rw [compile, lowered]
        change (assembleFresh {} unit >>= _) = _
        rw [assembleFresh, assemble_eq_ok hasCode]
        rfl
      · change holds (linesOf (unlines _))
        rw [hasLines.text_eq, linesOf_unlines hasLines.unbroken]
        exact isHeld

end ClassCompiler
