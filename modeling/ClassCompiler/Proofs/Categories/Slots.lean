import ClassCompiler.Proofs.Emission.StackDepth
import ClassCompiler.Proofs.Semantics.Coverage

/-!
# Categories of slots and results

A slot has the category of the declared type of its variable, and the first slot of an
instance method holds the current object. The code of a method is category-safe if on
every path each instruction finds operands of the categories that it takes, slots are
loaded and stored as what they are, and returns leave what the method declares. This
module reduces it to conditions on the operands of the method.
-/

namespace ClassCompiler.StackCode

open ThreeAddress (Method Value Call JumpsInside definedLabels)

/-! ## Slots -/

/-- The categories of the slots of a method, in slot order. -/
def slotCategories (method : Method) : List Category :=
  (if method.isStatic then [] else [.ref]) ++
    method.allVariables.map fun symbol => valueCategory symbol.ty

/-- A variable has a slot of the category of its type. -/
theorem getElem?_slotCategories {method : Method} (distinct : (slotNames method).Nodup)
    {symbol : Symbol} (member : symbol ∈ method.allVariables) :
    (slotCategories method)[(slotNames method).idxOf symbol.name]? =
      some (valueCategory symbol.ty) := by
  obtain ⟨place, inside, rfl⟩ := List.mem_iff_getElem.mp member
  have idxOf_eq {slot : Nat}
      (nameEq : (slotNames method)[slot]? = some method.allVariables[place].name) :
      (slotNames method).idxOf method.allVariables[place].name = slot := by
    obtain ⟨bound, getEq⟩ := List.getElem?_eq_some_iff.mp nameEq
    rw [← getEq]
    exact distinct.idxOf_getElem slot bound
  cases isStatic : method.isStatic with
  | true =>
      rw [@idxOf_eq place (by simp [slotNames, isStatic, inside])]
      simp [slotCategories, isStatic, inside]
  | false =>
      rw [@idxOf_eq (place + 1) (by simp [slotNames, isStatic, inside])]
      simp [slotCategories, isStatic, inside]

/-- Instructions that take a slot for what it is. -/
def Instr.MatchesSlots (slots : List Category) : Instr → Prop
  | .load category slot | .store category slot => slots[slot]? = some category
  | .increment slot _ => slots[slot]? = some .int
  | _ => True

/-- Lines all of whose instructions take slots for what they are. -/
abbrev MatchesSlots (slots : List Category) (lines : Lines) : Prop :=
  AllInstrs (Instr.MatchesSlots slots) lines

section

variable {slots : List Category} {names : List String}

/-! ## Operands -/

/-- Operands that are kept in slots of their categories. -/
def KeptIn (slots : List Category) (names : List String) : Value → Prop
  | .temp name ty | .var name ty => slots[names.idxOf name]? = some (valueCategory ty)
  | .self _ => slots[0]? = some .ref
  | .element array position _ => KeptIn slots names array ∧ KeptIn slots names position
  | .const _ | .classRef _ => True

/-- Destinations that are slots of their categories, if they are slots at all. -/
def StoredIn (slots : List Category) (names : List String) : Value → Prop
  | .temp name ty | .var name ty => slots[names.idxOf name]? = some (valueCategory ty)
  | _ => True

/-- An operand is loaded from the slots in which it is kept. -/
theorem KeptIn.getElem?_of_load {value : Value} {category : Category} {slot : Nat}
    (kept : KeptIn slots names value)
    (loads : .instr (.load category slot) ∈ loadCode names value) :
    slots[slot]? = some category := by
  induction value with
  | temp name ty | var name ty | self ty =>
      cases List.mem_singleton.mp loads
      exact kept
  | const constant => cases constant <;> cases List.mem_singleton.mp loads
  | classRef name => cases loads
  | element array position ty ofArray ofPosition =>
      rcases List.mem_append.mp loads with inOperands | isLast
      · rcases List.mem_append.mp inOperands with inArray | inPosition
        · exact ofArray kept.1 inArray
        · exact ofPosition kept.2 inPosition
      · cases List.mem_singleton.mp isLast

theorem StoredIn.getElem?_of_store {dest : Value} {category : Category} {slot : Nat}
    (stored : StoredIn slots names dest)
    (stores : .instr (.store category slot) ∈ storeCode names dest) :
    slots[slot]? = some category := by
  cases dest with
  | temp name ty | var name ty =>
      cases List.mem_singleton.mp stores
      exact stored
  | _ => cases stores

/-- Only an integer is incremented. -/
theorem StoredIn.getElem?_of_increment {dest left right : Value} {op : BinaryOp} {name : String}
    {delta : Int8} (stored : StoredIn slots names dest)
    (found : increment? dest op left right = some (name, delta)) :
    slots[names.idxOf name]? = some .int := by
  obtain ⟨nameEq, isInt, _⟩ := increment?_eq_some found
  have categoryEq : valueCategory dest.ty = .int := by
    rw [valueCategory, Ty.isIntLike, isInt]
    rfl
  rw [← categoryEq]
  cases dest with
  | temp destName ty | var destName ty =>
      cases nameEq
      exact stored
  | _ => cases nameEq

/-- The code of an instruction whose operands and destination are kept in slots of their
categories takes slots for what they are. -/
theorem Part.matchesSlots {linkage : Linkage} {isMain : Bool} {counts : ComparisonCounts}
    {instr : ThreeAddress.Instr} {op : Instr}
    (part : Part linkage isMain names counts instr (.instr op))
    (kept : ∀ value ∈ instr.sources, KeptIn slots names value)
    (stored : ∀ value ∈ instr.dest?, StoredIn slots names value) : op.MatchesSlots slots := by
  cases part with
  | plain isPlain =>
      cases op with
      | load category slot | store category slot | increment slot delta => exact isPlain.elim
      | _ => trivial
  | load source loads => exact (kept _ source).getElem?_of_load loads
  | store isDest stores => exact (stored _ isDest).getElem?_of_store stores
  | increment found => exact (stored _ rfl).getElem?_of_increment found
  | _ => trivial

end

/-! ## Results -/

/-- The category of what a method declares to return. -/
def returnCategory (method : Method) : Option Category :=
  if method.isMain || method.returnTy.isVoid then none else some (valueCategory method.returnTy)

/-- Only a return has a return in its code. -/
theorem Part.exists_ret {linkage : Linkage} {isMain : Bool} {names : List String}
    {counts : ComparisonCounts} {instr : ThreeAddress.Instr} {category : Option Category}
    (part : Part linkage isMain names counts instr (.instr (.ret category))) :
    ∃ value, instr = .ret value ∧ category = returnedCategory isMain value := by
  cases part with
  | plain isPlain => exact isPlain.elim
  | ret => exact ⟨_, rfl, rfl⟩

/-! ## Methods -/

/-- An instruction of a method whose operands, destination and result are of the
categories that their types say. -/
structure HasCategories (method : Method) (instr : ThreeAddress.Instr) : Prop where
  agrees : Agrees id method.isMain instr
  kept : ∀ value ∈ instr.sources, KeptIn (slotCategories method) (slotNames method) value
  stored : ∀ value ∈ instr.dest?, StoredIn (slotCategories method) (slotNames method) value
  returns : ∀ value, instr = .ret value →
    returnedCategory method.isMain value = returnCategory method

/-- A method without result returns nothing. -/
theorem hasCategories_return {method : Method}
    (hasNoResult : (method.isMain || method.returnTy.isVoid) = true) :
    HasCategories method (.ret none) := by
  refine ⟨trivial, List.forall_mem_nil _, nofun, ?_⟩
  rintro _ ⟨rfl⟩
  rw [returnCategory, hasNoResult]
  rfl

/-- On every path instructions find operands of the categories that they take, slots are
loaded and stored as what they are, and returns leave what the method declares. -/
structure IsCategorySafe (method : Method) (lines : Lines) : Prop where
  operands : ∀ place stack instr, Reaches lines (Instr.stackAfter id) [] place stack →
    lines[place]? = some (.instr instr) → Fits id instr.operands stack
  slots : MatchesSlots (slotCategories method) lines
  returns : ∀ category, .instr (.ret category) ∈ lines → category = returnCategory method

/-- Every instruction on a path through lines that a verifier passes finds its operands. -/
theorem Passes.fits {α : Type} {mark : Category → α} {limit : Nat} {lines : Lines}
    {entry exit stack : List α} (passes : Passes mark limit lines entry exit) {place : Nat}
    {instr : Instr} (reached : Reaches lines (Instr.stackAfter mark) entry place stack)
    (atPlace : lines[place]? = some (.instr instr)) : Fits mark instr.operands stack := by
  obtain ⟨profile, checks⟩ := passes
  have follows (other : Instr) (below : List α) (_ : Fits mark other.operands below) :
      other.stackAfter mark (id below) = id (other.stackAfter mark below) := rfl
  obtain ⟨_, stackEq, rfl⟩ := checks.of_reaches follows reached
  obtain ⟨found, foundEq, fits, _⟩ := checks.getElem?_instr atPlace
  rw [stackEq] at foundEq
  cases foundEq
  exact fits

/-- The code of a method is category-safe if its instructions have the right operands. -/
theorem isCategorySafe_generatedMethod {linkage : Linkage} {method : Method}
    (categories : ∀ instr ∈ method.body, HasCategories method instr)
    (isEmittable : IsEmittable method)
    (inside : JumpsInside method.body)
    (foreign : ∀ label ∈ definedLabels method.body, ¬IsComparisonLabel label)
    (counts : ComparisonCounts) :
    IsCategorySafe method (generatedMethod linkage method counts).lines := by
  have linesEq : (generatedMethod linkage method counts).lines =
      (bodyBlocks linkage method.isMain (slotNames method) counts method.body).flatten :=
    (flatten_bodyBlocks linkage method.isMain (slotNames method) counts method.body).symm
  have passes : Passes id (bodyHeight method.isMain method.body)
      (generatedMethod linkage method counts).lines [] [] := by
    rw [linesEq]
    exact passes_flatten (passes_bodyBlocks isEmittable inside foreign
      (fun instr member => (categories instr member).agrees) counts)
  constructor
  · intro place stack instr reached atPlace
    exact passes.fits reached atPlace
  · intro instr member
    obtain ⟨origin, originMember, before, part⟩ := exists_part_of_mem_bodyCode member
    have hasCategories := categories origin originMember
    exact part.matchesSlots hasCategories.kept hasCategories.stored
  · intro category member
    obtain ⟨origin, originMember, before, part⟩ := exists_part_of_mem_bodyCode member
    obtain ⟨value, rfl, rfl⟩ := part.exists_ret
    exact (categories _ originMember).returns value rfl

end ClassCompiler.StackCode
