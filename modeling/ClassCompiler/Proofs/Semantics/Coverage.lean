import ClassCompiler.Proofs.Semantics.Body

/-!
# Definitions and uses of temporaries

An instruction that has a temporary as its destination defines it, and the operands
of an instruction use the temporaries that stand in them. Code is covered if every
use finds a definition behind the last label before it. Control can enter such a
stretch only at its beginning, so on every path through covered code a temporary is
defined before it is used.
-/

namespace ClassCompiler.ThreeAddress

/-! ## Definitions and uses -/

/-- The temporaries that stand in an operand. -/
def Value.temps : Value → List Symbol
  | .temp name ty => [⟨name, ty⟩]
  | .element array position _ => array.temps ++ position.temps
  | .var _ _ | .const _ | .self _ | .classRef _ => []

/-- The temporary that a destination is. -/
def Value.temp? : Value → Option Symbol
  | .temp name ty => some ⟨name, ty⟩
  | _ => none

namespace Instr

/-- The destination of an instruction. -/
def dest? : Instr → Option Value
  | .assign dest _ | .binary dest _ _ _ | .not dest _ | .getField dest _ _ _ => some dest
  | .call dest _ => dest
  | .putField _ _ _ | .ret _ | .goto _ | .branch _ _ | .label _ => none

/-- An instruction of an expression: the next one runs after it, and it assigns to no
declared variable. -/
def IsStep (instr : Instr) : Prop :=
  instr.IsStraight ∧ ∀ name ty, instr.dest? ≠ some (.var name ty)

/-- The temporary that an instruction defines. -/
def definedTemp? (instr : Instr) : Option Symbol := instr.dest?.bind Value.temp?

/-- The operands that an instruction reads. An assignment to an element reads the array
and the position. -/
def sources : Instr → List Value
  | .assign (.element array position _) value => [array, position, value]
  | .assign _ value => [value]
  | .binary _ _ left right => [left, right]
  | .not _ operand => [operand]
  | .getField _ object _ _ => [object]
  | .putField object _ value => [object, value]
  | .call _ site => site.target.toList ++ site.args
  | .ret value => value.toList
  | .branch cond _ => [cond]
  | .goto _ | .label _ => []

/-- The temporaries that an instruction uses. -/
def usedTemps (instr : Instr) : List Symbol := instr.sources.flatMap Value.temps

theorem temps_subset {instr : Instr} {value : Value} (source : value ∈ instr.sources) :
    value.temps ⊆ instr.usedTemps :=
  fun _ member => List.mem_flatMap.mpr ⟨value, source, member⟩

/-- Whether control can go on to the next instruction. -/
def fallsThrough : Instr → Bool
  | .goto _ | .ret _ => false
  | _ => true

end Instr

/-- The temporaries that code defines, in code order. -/
def definedTemps (code : Code) : List Symbol := code.filterMap Instr.definedTemp?

@[simp] theorem definedTemps_nil : definedTemps [] = [] := rfl

theorem definedTemps_cons (instr : Instr) (rest : Code) :
    definedTemps (instr :: rest) = instr.definedTemp?.toList ++ definedTemps rest := by
  rw [definedTemps, definedTemps, List.filterMap_cons]
  cases instr.definedTemp? <;> rfl

@[simp] theorem definedTemps_append (first second : Code) :
    definedTemps (first ++ second) = definedTemps first ++ definedTemps second :=
  List.filterMap_append

/-! ## Paths -/

/-- The paths through a body from its first instruction: the places that have been
passed, and the place that is reached. -/
inductive Path (body : Code) : List Nat → Nat → Prop where
  | entry : Path body [] 0
  | next {passed : List Nat} {place : Nat} {instr : Instr} (before : Path body passed place)
      (atPlace : body[place]? = some instr) (falls : instr.fallsThrough = true) :
      Path body (passed ++ [place]) (place + 1)
  | jump {passed : List Nat} {place other : Nat} {instr : Instr} {target : String}
      (before : Path body passed place) (atPlace : body[place]? = some instr)
      (jumps : instr.target? = some target) (labelled : body[other]? = some (.label target)) :
      Path body (passed ++ [place]) other

/-! ## Coverage -/

/-- The temporaries that are known to be defined after an instruction: all of them are
forgotten at a label. -/
def knownAfter (known : List Symbol) : Instr → List Symbol
  | .label _ => []
  | instr => known ++ instr.definedTemp?.toList

/-- Every use of code is of a temporary that is known to be defined. -/
def Covered : List Symbol → Code → Prop
  | _, [] => True
  | known, instr :: rest => instr.usedTemps ⊆ known ∧ Covered (knownAfter known instr) rest

theorem knownAfter_subset {known more : List Symbol} (subset : known ⊆ more) (instr : Instr) :
    knownAfter known instr ⊆ knownAfter more instr := by
  cases instr with
  | label name => exact List.Subset.refl _
  | _ => exact List.append_subset.mpr ⟨List.subset_append_of_subset_left _ subset,
      List.subset_append_right _ _⟩

theorem Covered.mono {known more : List Symbol} {code : Code} (covered : Covered known code)
    (subset : known ⊆ more) : Covered more code := by
  induction code generalizing known more with
  | nil => trivial
  | cons instr rest ih =>
      exact ⟨List.Subset.trans covered.1 subset,
        ih covered.2 (knownAfter_subset subset instr)⟩

theorem covered_append {known : List Symbol} {first second : Code} :
    Covered known (first ++ second) ↔
      Covered known first ∧ Covered (first.foldl knownAfter known) second := by
  induction first generalizing known with
  | nil => simp [Covered]
  | cons instr rest ih =>
      rw [List.cons_append, Covered, Covered, ih, and_assoc, List.foldl_cons]

/-- Code that defines all that it uses can stand behind any other code. -/
theorem Covered.append {first second : Code} (coveredFirst : Covered [] first)
    (coveredSecond : Covered [] second) : Covered [] (first ++ second) :=
  covered_append.mpr ⟨coveredFirst, coveredSecond.mono (List.nil_subset _)⟩

/-- Straight code adds the temporaries that it defines. -/
theorem foldl_knownAfter_of_isStraight {known : List Symbol} {code : Code}
    (straight : ∀ instr ∈ code, instr.IsStraight) :
    code.foldl knownAfter known = known ++ definedTemps code := by
  induction code generalizing known with
  | nil => simp [definedTemps]
  | cons instr rest ih =>
      obtain ⟨isStraight, restStraight⟩ := List.forall_mem_cons.mp straight
      have knownEq : knownAfter known instr = known ++ instr.definedTemp?.toList := by
        cases instr with
        | label name => exact isStraight.elim
        | _ => rfl
      rw [List.foldl_cons, ih restStraight, knownEq, List.append_assoc,
        definedTemps_cons]

/-- Straight code is covered if all that it uses is known before it. -/
theorem covered_of_isStraight {known : List Symbol} {code : Code}
    (straight : ∀ instr ∈ code, instr.IsStraight)
    (used : ∀ instr ∈ code, instr.usedTemps ⊆ known) : Covered known code := by
  induction code generalizing known with
  | nil => trivial
  | cons instr rest ih =>
      obtain ⟨isStraight, restStraight⟩ := List.forall_mem_cons.mp straight
      obtain ⟨usedHere, usedLater⟩ := List.forall_mem_cons.mp used
      have grows : known ⊆ knownAfter known instr := by
        cases instr with
        | label name => exact isStraight.elim
        | _ => exact List.subset_append_left _ _
      exact ⟨usedHere, (ih restStraight usedLater).mono grows⟩

/-- A use in covered code is of a temporary that is known at its place. -/
theorem Covered.used_known {known : List Symbol} {body : Code} (covered : Covered known body)
    {place : Nat} {instr : Instr} (atPlace : body[place]? = some instr) :
    instr.usedTemps ⊆ (body.take place).foldl knownAfter known := by
  obtain ⟨bound, rfl⟩ := List.getElem?_eq_some_iff.mp atPlace
  rw [← List.take_append_drop place body, covered_append,
    List.drop_eq_getElem_cons bound] at covered
  exact covered.2.1

/-- A use in covered code is of a temporary that was known or that the code defines. -/
theorem Covered.usedTemps_subset {known : List Symbol} {body : Code} (covered : Covered known body)
    {instr : Instr} (member : instr ∈ body) : instr.usedTemps ⊆ known ++ definedTemps body := by
  induction body generalizing known with
  | nil => cases member
  | cons first rest ih =>
      rcases List.mem_cons.mp member with rfl | later
      · exact List.subset_append_of_subset_left _ covered.1
      · have known_subset : knownAfter known first ⊆ known ++ first.definedTemp?.toList := by
          cases first with
          | label name => exact List.nil_subset _
          | _ => exact List.Subset.refl _
        rw [definedTemps_cons, ← List.append_assoc]
        exact List.Subset.trans (ih covered.2 later)
          (List.append_subset.mpr ⟨List.subset_append_of_subset_left _ known_subset,
            List.subset_append_right _ _⟩)

/-- A definition that was passed on a path. -/
def DefinedAmong (body : Code) (passed : List Nat) (temp : Symbol) : Prop :=
  ∃ earlier ∈ passed, ∃ instr, body[earlier]? = some instr ∧ instr.definedTemp? = some temp

theorem DefinedAmong.concat {body : Code} {passed : List Nat} {temp : Symbol}
    (defined : DefinedAmong body passed temp) (place : Nat) :
    DefinedAmong body (passed ++ [place]) temp := by
  obtain ⟨earlier, member, found⟩ := defined
  exact ⟨earlier, List.mem_append_left _ member, found⟩

theorem foldl_take_succ {body : Code} {place : Nat} {instr : Instr} (known : List Symbol)
    (atPlace : body[place]? = some instr) :
    (body.take (place + 1)).foldl knownAfter known =
      knownAfter ((body.take place).foldl knownAfter known) instr := by
  rw [List.take_add_one, atPlace, List.foldl_append]
  rfl

/-- Along a path, all temporaries that are known at a place have been defined, unless
there is a label, to which paths come from elsewhere. -/
theorem Path.definedAmong {body : Code} {passed : List Nat} {place : Nat}
    (path : Path body passed place) :
    (∃ name, body[place]? = some (.label name)) ∨
      ∀ temp ∈ (body.take place).foldl knownAfter [], DefinedAmong body passed temp := by
  induction path with
  | entry => exact .inr nofun
  | @next passed place instr before atPlace falls ih =>
      right
      intro temp member
      rw [foldl_take_succ [] atPlace] at member
      rcases ih with ⟨name, isLabel⟩ | defined
      · rw [atPlace] at isLabel
        cases isLabel
        cases member
      · have cases :
            temp ∈ (body.take place).foldl knownAfter [] ∨ instr.definedTemp? = some temp := by
          cases instr with
          | label name => cases member
          | _ => simpa [knownAfter] using member
        rcases cases with earlier | here
        · exact (defined temp earlier).concat place
        · exact ⟨place, by simp, instr, atPlace, here⟩
  | jump _ _ _ labelled _ => exact .inl ⟨_, labelled⟩

/-- On every path through covered code a temporary is defined before it is used. -/
theorem Covered.definedAmong {body : Code} (covered : Covered [] body) {passed : List Nat}
    {place : Nat} (path : Path body passed place) {instr : Instr}
    (atPlace : body[place]? = some instr) {temp : Symbol} (used : temp ∈ instr.usedTemps) :
    DefinedAmong body passed temp := by
  rcases path.definedAmong with ⟨name, isLabel⟩ | defined
  · rw [atPlace] at isLabel
    cases isLabel
    cases used
  · exact defined temp (covered.used_known atPlace used)

end ClassCompiler.ThreeAddress
