import ClassCompiler.Proofs.Assembly.RoundTrip
import ClassCompiler.Proofs.Emission.Parts

/-!
# Emitted lines can be read

If the names that an instruction mentions are names, and imported classes and the
parent have paths, then every line that is emitted for it can be read.
-/

namespace ClassCompiler.StackCode

open ThreeAddress (Value Call Method)

/-- The names that are written for an instruction: labels, members and classes. -/
def namesOf : ThreeAddress.Instr → List String
  | .getField _ object field ty => [object.ty.name, field, ty.name]
  | .putField object field value => [object.ty.name, field, value.ty.name]
  | .call _ call => call.method.toList ++ call.returnTy.name ::
      (call.target.toList ++ call.args).map fun value => value.ty.name
  | .goto target | .branch _ target | .label target => [target]
  | _ => []

/-- The paths of imported classes and of the parent are paths. -/
structure Linkage.HasPaths (linkage : Linkage) : Prop where
  imports : ∀ entry ∈ linkage.paths.imports, IsPath entry.2
  parent : IsPath linkage.superPath

/-- The names that are written for a call: those of its method, its result, its target and
its arguments. -/
theorem isName_of_namesOf_call {dest : Option Value} {call : Call}
    (plain : ∀ name ∈ namesOf (.call dest call), IsName name) :
    (∀ method ∈ call.method, IsName method) ∧ IsName call.returnTy.name ∧
      (∀ target ∈ call.target, IsName target.ty.name) ∧
      ∀ value ∈ call.args, IsName value.ty.name := by
  simpa only [namesOf, List.forall_mem_append, List.forall_mem_cons, List.forall_mem_map,
    Option.mem_toList, Option.mem_def] using plain

/-! ## Paths and descriptors -/

section

variable {linkage : Linkage} (hasPaths : linkage.HasPaths)
include hasPaths

theorem Linkage.HasPaths.classPath {name : String} (isName : IsName name) :
    IsPath (linkage.paths.classPath name) := by
  rw [ClassPaths.classPath]
  split
  · exact isName.isPath
  split
  · decide
  · cases found : linkage.paths.imports.lookup name with
    | none => exact isName.isPath
    | some path =>
        rcases List.lookup_eq_some_iff.mp found with ⟨before, behind, importsEq, _⟩
        exact hasPaths.imports (name, path) (by rw [importsEq]; simp)

theorem Linkage.HasPaths.baseDescriptor {name : String} (isName : IsName name) :
    (linkage.paths.baseDescriptor name).IsReadable := by
  rw [ClassPaths.baseDescriptor]
  split
  · trivial
  split
  · trivial
  split
  · trivial
  split
  · exact (by decide : IsPath ClassPaths.stringPath)
  · exact hasPaths.classPath isName

theorem Linkage.HasPaths.descriptorOf {ty : Ty} (isName : IsName ty.name) :
    (linkage.paths.descriptorOf ty).IsReadable := by
  rw [ClassPaths.descriptorOf]
  split
  · exact hasPaths.baseDescriptor isName
  · exact hasPaths.baseDescriptor isName

theorem Linkage.HasPaths.signatureOf {params : List Ty} {result : Ty}
    (paramNames : ∀ ty ∈ params, IsName ty.name) (resultName : IsName result.name) :
    (linkage.paths.signatureOf params result).IsReadable := by
  constructor
  · intro descriptor member
    rcases List.mem_map.mp member with ⟨ty, tyMember, rfl⟩
    exact hasPaths.descriptorOf (paramNames ty tyMember)
  · exact hasPaths.descriptorOf resultName

end

/-! ## Lines -/

/-- Lines whose names can be read. -/
def AllReadable (lines : Lines) : Prop := ∀ line ∈ lines, line.IsReadable

theorem isNameChar_of_isDigit {char : Char} (isDigit : char.isDigit = true) :
    isNameChar char = true := by
  cases nameChar : isNameChar char with
  | true => rfl
  | false =>
      simp only [isNameChar, isBlank, Bool.and_eq_false_iff, Bool.not_eq_false', Bool.or_eq_true,
        beq_iff_eq, List.contains_iff_mem, List.mem_cons, List.not_mem_nil, or_false] at nameChar
      rcases nameChar with (rfl | rfl) | rfl | rfl | rfl | rfl | rfl | rfl | rfl | rfl <;>
        cases isDigit

/-- A name stays one with a number behind it. -/
theorem IsName.numbered {word : String} (isName : IsName word) (number : Nat) :
    IsName (word ++ toString number) := by
  constructor
  · intro isEmpty
    exact isName.1 (String.append_eq_empty_iff.mp isEmpty).1
  · refine List.all_eq_true.mpr fun char member => ?_
    rw [String.toList_append, List.mem_append] at member
    rcases member with inWord | inNumber
    · exact isName.of_mem inWord
    · exact isNameChar_of_isDigit (isDigit_of_mem_toString inNumber)

theorem isName_trueLabel (kind : Comparison) (number : Nat) : IsName (trueLabel kind number) :=
  IsName.numbered (by cases kind <;> decide) number

theorem isName_endLabel (kind : Comparison) (number : Nat) : IsName (endLabel kind number) :=
  IsName.numbered (by cases kind <;> decide) number

theorem Instr.IsPlain.isReadable {op : Instr} (isPlain : op.IsPlain) : op.IsReadable := by
  cases op with
  | goto target | branch test target => exact isPlain.elim
  | new path | newArray element => exact isPlain.elim
  | getField owner name descriptor | putField owner name descriptor => exact isPlain.elim
  | invoke mode owner name descriptor => exact isPlain.elim
  | _ => trivial

section

variable {linkage : Linkage} (hasPaths : linkage.HasPaths)
include hasPaths

theorem Linkage.HasPaths.newArray {arrayTy : Ty} (isName : IsName arrayTy.name) :
    (Instr.newArray (linkage.elementOf arrayTy)).IsReadable := by
  rw [Linkage.elementOf]
  split
  · trivial
  split
  · trivial
  · exact hasPaths.classPath isName

theorem Linkage.HasPaths.ownerOf (mode : ThreeAddress.InvokeMode) {target : Value}
    (isName : IsName target.ty.name) : IsPath (linkage.ownerOf mode target) := by
  unfold Linkage.ownerOf
  split
  · exact hasPaths.classPath isName
  · exact hasPaths.parent
  · exact hasPaths.classPath isName

/-- Every line of an instruction with plain names can be read. -/
theorem Part.isReadable {isMain : Bool} {names : List String} {counts : ComparisonCounts}
    {instr : ThreeAddress.Instr} {line : Line Instr}
    (part : Part linkage isMain names counts instr line)
    (plain : ∀ name ∈ namesOf instr, IsName name) : line.IsReadable := by
  cases part with
  | plain isPlain => exact isPlain.isReadable
  | load | store | increment | ret => trivial
  | test | holds => exact isName_trueLabel _ _
  | skip | behind => exact isName_endLabel _ _
  | getField | putField =>
      simp only [namesOf, List.forall_mem_cons] at plain
      exact ⟨hasPaths.classPath plain.1, plain.2.1, hasPaths.descriptorOf plain.2.2.1⟩
  | new =>
      obtain ⟨_, returnName, targetName, _⟩ := isName_of_namesOf_call plain
      refine hasPaths.classPath ?_
      rw [createdClass]
      split
      · next targetEq => exact targetName _ targetEq
      · exact returnName
  | newArray => exact hasPaths.newArray (isName_of_namesOf_call plain).2.1
  | invoke =>
      obtain ⟨methodName, returnName, targetName, argNames⟩ := isName_of_namesOf_call plain
      refine ⟨hasPaths.ownerOf _ (targetName _ rfl), methodName _ rfl,
        hasPaths.signatureOf ?_ returnName⟩
      rwa [List.forall_mem_map]
  | goto | branch | label => exact plain _ List.mem_cons_self

/-- Every line of a body with plain names can be read. -/
theorem allReadable_bodyCode (isMain : Bool) (names : List String) (counts : ComparisonCounts)
    {body : ThreeAddress.Code} (plain : ∀ instr ∈ body, ∀ name ∈ namesOf instr, IsName name) :
    AllReadable (bodyCode linkage isMain names counts body) := by
  intro line member
  obtain ⟨instr, inBody, _, part⟩ := exists_part_of_mem_bodyCode member
  exact part.isReadable hasPaths (plain instr inBody)

end

end ClassCompiler.StackCode
