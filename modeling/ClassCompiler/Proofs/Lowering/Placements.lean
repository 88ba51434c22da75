import ClassCompiler.Proofs.Lowering.Programs
import Mathlib.Data.List.Perm.Basic

/-!
# Placements of conditionals and loops

A conditional and a loop have two labels and two jumps each, one jump to each label. In
lowered code these four stand in a fixed order around the code of the branches or of the
body, and every other instruction names no label. So the constructs of a body are placed in
its code, each with four positions, and of two of them one surrounds the other or lies behind
it. They take their labels in the order in which they begin.
-/

namespace ClassCompiler

/-! ## Constructs of the source -/

/-- The statements that jump. -/
inductive ConstructKind where
  | conditional
  | loop
deriving DecidableEq, Repr, Inhabited

namespace ConstructKind

/-- The label inside a construct: a conditional has it before its positive branch, a loop
before its condition. -/
def inner : ConstructKind → LabelKind
  | .conditional => .ifThen
  | .loop => .whileCond

/-- The label at the end of a construct. -/
def outer : ConstructKind → LabelKind
  | .conditional => .ifEnd
  | .loop => .whileEnd

/-- The numbers of the next labels after a construct has taken its two. -/
def advance (kind : ConstructKind) (next : LabelKind → Nat) (other : LabelKind) : Nat :=
  next other + if other = kind.inner ∨ other = kind.outer then 1 else 0

end ConstructKind

mutual

/-- The conditionals and loops in a statement, in the order in which they take their labels:
the negative branch of a conditional is lowered before the positive one. -/
def Stmt.constructs : Stmt → List ConstructKind
  | .assign _ _ | .expr _ | .ret _ => []
  | .ifElse _ thenBranch elseBranch =>
      .conditional :: (elseBranch.constructs ++ thenBranch.constructs)
  | .whileLoop _ body => .loop :: body.constructs
  | .block body => constructsAll body

/-- The conditionals and loops in statements, one after the other. -/
def Stmt.constructsAll : List Stmt → List ConstructKind
  | [] => []
  | stmt :: rest => stmt.constructs ++ constructsAll rest

end

/-- A conditional or a loop with its labels. -/
structure Construct where
  kind : ConstructKind
  inner : String
  outer : String
deriving DecidableEq, Repr, Inhabited

/-- The labels of a construct. -/
def Construct.labels (construct : Construct) : List String := [construct.inner, construct.outer]

/-- Constructs with the labels that they take one after the other, if the numbers of the next
labels are given. -/
def takeLabels (next : LabelKind → Nat) : List ConstructKind → List Construct
  | [] => []
  | kind :: rest =>
      ⟨kind, labelName kind.inner (next kind.inner), labelName kind.outer (next kind.outer)⟩ ::
        takeLabels (kind.advance next) rest

/-- The numbers of the next labels after constructs have taken theirs. -/
def advanceAll (next : LabelKind → Nat) (kinds : List ConstructKind) : LabelKind → Nat :=
  kinds.foldl (fun next kind => kind.advance next) next

theorem advanceAll_append (next : LabelKind → Nat) (kinds others : List ConstructKind) :
    advanceAll next (kinds ++ others) = advanceAll (advanceAll next kinds) others :=
  List.foldl_append

theorem takeLabels_append (next : LabelKind → Nat) (kinds others : List ConstructKind) :
    takeLabels next (kinds ++ others) =
      takeLabels next kinds ++ takeLabels (advanceAll next kinds) others := by
  induction kinds generalizing next with
  | nil => rfl
  | cons kind rest ih =>
      exact congrArg (_ :: ·) (ih (kind.advance next))

/-- Labels of constructs are named after the kind of the construct. -/
theorem exists_labelName_of_mem_takeLabels {next : LabelKind → Nat} {kinds : List ConstructKind}
    {construct : Construct} (member : construct ∈ takeLabels next kinds) :
    (∃ number, construct.inner = labelName construct.kind.inner number) ∧
      ∃ number, construct.outer = labelName construct.kind.outer number := by
  induction kinds generalizing next with
  | nil => cases member
  | cons kind rest ih =>
      rcases List.mem_cons.mp member with rfl | later
      · exact ⟨⟨_, rfl⟩, _, rfl⟩
      · exact ih later

namespace ThreeAddress

open LoweringState

/-! ## Marks -/

/-- The label that an instruction defines or to which it may jump. -/
def Instr.usedLabel? : Instr → Option String
  | .label name | .goto name | .branch _ name => some name
  | _ => none

/-- The instructions of code that name a label, with their positions, if the code starts at a
position. -/
def marks (start : Nat) (code : Code) : List (Instr × Nat) :=
  (code.zipIdx start).filter fun mark => mark.1.usedLabel?.isSome

theorem marks_append (start : Nat) (first second : Code) :
    marks start (first ++ second) = marks start first ++ marks (start + first.length) second := by
  rw [marks, List.zipIdx_append, List.filter_append]
  rfl

theorem marks_cons {instr : Instr} (used : instr.usedLabel?.isSome = true) (start : Nat)
    (rest : Code) : marks start (instr :: rest) = (instr, start) :: marks (start + 1) rest := by
  rw [marks, List.zipIdx_cons]
  exact List.filter_cons_of_pos used

theorem marks_nil (start : Nat) : marks start [] = [] := rfl

theorem mem_marks {body : Code} {instr : Instr} {position : Nat} :
    (instr, position) ∈ marks 0 body ↔
      body[position]? = some instr ∧ instr.usedLabel?.isSome = true := by
  rw [marks, List.mem_filter, List.mk_mem_zipIdx_iff_getElem?]

/-- What instructions say of labels can be read off the marks. -/
theorem filterMap_marks {α : Type} {read : Instr → Option α}
    (silent : ∀ instr : Instr, instr.usedLabel? = none → read instr = none) (start : Nat)
    (code : Code) :
    (marks start code).filterMap (fun mark => read mark.1) = code.filterMap read := by
  rw [marks, List.filterMap_filter]
  calc (code.zipIdx start).filterMap (fun mark =>
          if mark.1.usedLabel?.isSome then read mark.1 else none)
      = (code.zipIdx start).filterMap (read ∘ Prod.fst) := by
        congr 1
        funext mark
        cases used : mark.1.usedLabel? with
        | none => simp [silent mark.1 used]
        | some label => simp
    _ = code.filterMap read := by rw [← List.filterMap_map, List.zipIdx_map_fst]

/-- Code that names no label. -/
def IsPlain (code : Code) : Prop := ∀ instr ∈ code, instr.usedLabel? = none

theorem IsPlain.append {first second : Code} (firstPlain : IsPlain first)
    (secondPlain : IsPlain second) : IsPlain (first ++ second) :=
  List.forall_mem_append.mpr ⟨firstPlain, secondPlain⟩

theorem IsPlain.concat {code : Code} {instr : Instr} (plain : IsPlain code)
    (last : instr.usedLabel? = none) : IsPlain (code ++ [instr]) :=
  plain.append (List.forall_mem_singleton.mpr last)

theorem isPlain_of_isStraight {code : Code} (straight : ∀ instr ∈ code, instr.IsStraight) :
    IsPlain code := by
  intro instr member
  have isStraight := straight instr member
  cases instr with
  | label name | goto target | branch cond target => exact isStraight.elim
  | _ => rfl

theorem IsPlain.marks_eq {code : Code} (plain : IsPlain code) (start : Nat) :
    marks start code = [] := by
  rw [marks, List.filter_eq_nil_iff]
  rintro ⟨instr, position⟩ member
  rw [plain instr (List.fst_mem_of_mem_zipIdx member)]
  exact nofun

/-! ## Placements -/

/-- A construct with the value on which it branches and the positions of its labels and
jumps, in ascending order. -/
structure Placement where
  construct : Construct
  cond : Value
  first : Nat
  second : Nat
  third : Nat
  last : Nat
  first_lt : first < second
  second_lt : second < third
  third_lt : third < last

namespace Placement

/-- The labels and jumps of a construct where they are placed. A conditional branches to its
positive branch and jumps over it; a loop leaves by a branch and jumps back. -/
def marks (placement : Placement) : List (Instr × Nat) :=
  let ⟨kind, inner, outer⟩ := placement.construct
  match kind with
  | .conditional =>
      [(.branch placement.cond inner, placement.first), (.goto outer, placement.second),
        (.label inner, placement.third), (.label outer, placement.last)]
  | .loop =>
      [(.label inner, placement.first), (.branch placement.cond outer, placement.second),
        (.goto inner, placement.third), (.label outer, placement.last)]

/-- Of two constructs one lies inside the other, or one lies behind the other. -/
def NestedOrApart (one other : Placement) : Prop :=
  one.last < other.first ∨ other.last < one.first ∨
    one.first < other.first ∧ other.last < one.last ∨
    other.first < one.first ∧ one.last < other.last

end Placement

/-- The marks of code that starts at a position are those of placed constructs, which are
nested or apart. -/
structure Arranged (start : Nat) (code : Code) (placements : List Placement) : Prop where
  perm : (marks start code).Perm (placements.flatMap Placement.marks)
  within : ∀ placement ∈ placements,
    start ≤ placement.first ∧ placement.last < start + code.length
  nested : placements.Pairwise Placement.NestedOrApart

section

variable {start : Nat}

theorem IsPlain.arranged {code : Code} (plain : IsPlain code) : Arranged start code [] where
  perm := by rw [plain.marks_eq]; rfl
  within := List.forall_mem_nil _
  nested := .nil

theorem Arranged.append {first second : Code} {placements others : List Placement}
    (firstArranged : Arranged start first placements)
    (secondArranged : Arranged (start + first.length) second others) :
    Arranged start (first ++ second) (placements ++ others) where
  perm := by
    rw [marks_append, List.flatMap_append]
    exact firstArranged.perm.append secondArranged.perm
  within := by
    intro placement member
    rw [List.length_append]
    rcases List.mem_append.mp member with inFirst | inSecond
    · have bounds := firstArranged.within placement inFirst
      omega
    · have bounds := secondArranged.within placement inSecond
      omega
  nested := by
    refine List.pairwise_append.mpr ⟨firstArranged.nested, secondArranged.nested, ?_⟩
    intro one inFirst other inSecond
    have bounds := firstArranged.within one inFirst
    have others := secondArranged.within other inSecond
    exact .inl (by omega)

/-- A construct that begins and ends code surrounds what is placed between. -/
theorem arranged_around {code : Code} {placement : Placement} {placements : List Placement}
    (perm : (marks start code).Perm (placement.marks ++ placements.flatMap Placement.marks))
    (firstEq : placement.first = start) (lastEq : placement.last + 1 = start + code.length)
    (inside : ∀ other ∈ placements, start < other.first ∧ other.last < placement.last)
    (nested : placements.Pairwise Placement.NestedOrApart) :
    Arranged start code (placement :: placements) where
  perm := perm
  within := by
    rw [List.forall_mem_cons]
    refine ⟨by omega, fun other member => ?_⟩
    have bounds := inside other member
    omega
  nested := by
    refine List.pairwise_cons.mpr ⟨fun other member => ?_, nested⟩
    have bounds := inside other member
    exact .inr (.inr (.inl (by omega)))

/-- A conditional surrounds its negative branch and its positive one. -/
theorem Arranged.conditional {elseCode thenCode : Code} {placements others : List Placement}
    (elseArranged : Arranged (start + 1) elseCode placements)
    (thenArranged : Arranged (start + 1 + elseCode.length + 1 + 1) thenCode others) (cond : Value)
    (inner outer : String) :
    ∃ placement : Placement, placement.construct = ⟨.conditional, inner, outer⟩ ∧
      Arranged start (.branch cond inner ::
          (elseCode ++ .goto outer :: .label inner :: (thenCode ++ [.label outer])))
        (placement :: (placements ++ others)) := by
  let placement : Placement :=
    { construct := ⟨.conditional, inner, outer⟩
      cond
      first := start
      second := start + 1 + elseCode.length
      third := start + 1 + elseCode.length + 1
      last := start + 1 + elseCode.length + 1 + 1 + thenCode.length
      first_lt := by omega
      second_lt := by omega
      third_lt := by omega }
  refine ⟨placement, rfl, arranged_around (List.perm_iff_count.mpr fun mark => ?_) rfl ?_ ?_ ?_⟩
  · have elseCount := elseArranged.perm.count_eq mark
    have thenCount := thenArranged.perm.count_eq mark
    rw [marks_cons rfl, marks_append, marks_cons rfl, marks_cons rfl, marks_append, marks_cons rfl,
      marks_nil]
    simp only [placement, Placement.marks, List.flatMap_append, List.count_append, List.count_cons,
      List.count_nil] at elseCount thenCount ⊢
    omega
  · simp only [placement, List.length_append, List.length_cons, List.length_nil]
    omega
  · intro other member
    change start < other.first ∧ other.last < start + 1 + elseCode.length + 1 + 1 + thenCode.length
    rcases List.mem_append.mp member with inElse | inThen
    · have bounds := elseArranged.within other inElse
      omega
    · have bounds := thenArranged.within other inThen
      omega
  · refine List.pairwise_append.mpr ⟨elseArranged.nested, thenArranged.nested, ?_⟩
    intro one inElse other inThen
    have bounds := elseArranged.within one inElse
    have others := thenArranged.within other inThen
    exact .inl (by omega)

/-- A loop surrounds its condition, which names no label, and its body. -/
theorem Arranged.loop {condCode bodyCode : Code} {placements : List Placement}
    (plain : IsPlain condCode)
    (bodyArranged : Arranged (start + 1 + condCode.length + 1) bodyCode placements) (cond : Value)
    (inner outer : String) :
    ∃ placement : Placement, placement.construct = ⟨.loop, inner, outer⟩ ∧
      Arranged start (.label inner ::
          (condCode ++ .branch cond outer :: (bodyCode ++ [.goto inner, .label outer])))
        (placement :: placements) := by
  let placement : Placement :=
    { construct := ⟨.loop, inner, outer⟩
      cond
      first := start
      second := start + 1 + condCode.length
      third := start + 1 + condCode.length + 1 + bodyCode.length
      last := start + 1 + condCode.length + 1 + bodyCode.length + 1
      first_lt := by omega
      second_lt := by omega
      third_lt := by omega }
  refine ⟨placement, rfl, arranged_around (List.perm_iff_count.mpr fun mark => ?_) rfl ?_ ?_
    bodyArranged.nested⟩
  · have bodyCount := bodyArranged.perm.count_eq mark
    rw [marks_cons rfl, marks_append, plain.marks_eq, marks_cons rfl, marks_append, marks_cons rfl,
      marks_cons rfl, marks_nil]
    simp only [placement, Placement.marks, List.count_append, List.count_cons, List.count_nil]
      at bodyCount ⊢
    omega
  · simp only [placement, List.length_append, List.length_cons, List.length_nil]
    omega
  · intro other member
    have bounds := bodyArranged.within other member
    change start < other.first ∧
      other.last < start + 1 + condCode.length + 1 + bodyCode.length + 1
    omega

end

/-! ## Statements -/

section

variable {table : SymbolTable} {state after : LoweringState}

/-- A temporary takes no label. -/
theorem nextLabel_withTemp (table : SymbolTable) (state : LoweringState) (ty : Ty) :
    (state.withTemp table ty).names.nextLabel = state.names.nextLabel := by
  funext kind
  cases kind <;> rfl

/-- A construct takes one label of each of its kinds. -/
theorem nextLabel_withLabels (state : LoweringState) (kind : ConstructKind) :
    (state.withLabels kind.inner kind.outer).names.nextLabel =
      kind.advance state.names.nextLabel := by
  funext other
  rw [withLabels, NameSupply.nextLabel_skipLabel, NameSupply.nextLabel_skipLabel]
  cases kind <;> cases other <;> rfl

theorem PacksArguments.nextLabel_eq {own : Option MethodSignature} {values packed : List Value}
    {code : Code} (packs : PacksArguments table own values state code packed after) :
    after.names.nextLabel = state.names.nextLabel := by
  cases packs with
  | kept _ => rfl
  | collected _ _ => exact nextLabel_withTemp _ _ _

mutual

/-- An expression takes no label. -/
theorem LowersExpr.nextLabel_eq {expr : Expr} {expected : Ty} {state after : LoweringState}
    {lowered : Lowered} :
    LowersExpr table expr expected state lowered after →
      after.names.nextLabel = state.names.nextLabel
  | .int _ _ _ | .bool _ _ _ | .string _ _ _ | .self _ _ | .declared _ => rfl
  | .paren lowers => lowers.nextLabel_eq
  | .field _ | .newObject _ _ _ => nextLabel_withTemp _ _ _
  | .binary lowersLeft lowersRight | .index lowersLeft lowersRight =>
      (nextLabel_withTemp _ _ _).trans (lowersRight.nextLabel_eq.trans lowersLeft.nextLabel_eq)
  | .not lowers | .length lowers | .newArray lowers | .arrayInit lowers _ | .call lowers _ =>
      (nextLabel_withTemp _ _ _).trans lowers.nextLabel_eq

theorem LowersExprs.nextLabel_eq {expectedAt : Nat → Ty} {exprs : List Expr}
    {state after : LoweringState} {code : Code} {values : List Value} :
    LowersExprs table expectedAt exprs state code values after →
      after.names.nextLabel = state.names.nextLabel
  | .nil _ _ => rfl
  | .cons lowersFirst lowersRest => lowersRest.nextLabel_eq.trans lowersFirst.nextLabel_eq

theorem LowersCall.nextLabel_eq {expr : Expr} {expected : Ty} {state after : LoweringState}
    {code : Code} {site : Call} :
    LowersCall table expr expected state code site after →
      after.names.nextLabel = state.names.nextLabel
  | .onClass _ lowersArgs packs | .onSelf _ _ lowersArgs packs | .onNamed _ lowersArgs packs =>
      packs.nextLabel_eq.trans lowersArgs.nextLabel_eq
  | .onObject _ lowersReceiver _ lowersArgs packs _ =>
      packs.nextLabel_eq.trans (lowersArgs.nextLabel_eq.trans lowersReceiver.nextLabel_eq)

end

/-- Code that starts at a position is arranged, and its constructs take their labels one
after the other between two states. -/
def Places (state after : LoweringState) (code : Code) (kinds : List ConstructKind) : Prop :=
  after.names.nextLabel = advanceAll state.names.nextLabel kinds ∧
    ∀ start, ∃ placements, Arranged start code placements ∧
      placements.map Placement.construct = takeLabels state.names.nextLabel kinds

theorem IsPlain.places {code : Code} (plain : IsPlain code)
    (labelsEq : after.names.nextLabel = state.names.nextLabel) : Places state after code [] :=
  ⟨labelsEq, fun _ => ⟨[], plain.arranged, rfl⟩⟩

theorem Places.append {middle : LoweringState} {first second : Code}
    {kinds others : List ConstructKind} (firstPlaces : Places state middle first kinds)
    (secondPlaces : Places middle after second others) :
    Places state after (first ++ second) (kinds ++ others) := by
  refine ⟨?_, fun start => ?_⟩
  · rw [advanceAll_append, ← firstPlaces.1, secondPlaces.1]
  · obtain ⟨placements, arranged, taken⟩ := firstPlaces.2 start
    obtain ⟨later, laterArranged, laterTaken⟩ := secondPlaces.2 (start + first.length)
    refine ⟨placements ++ later, arranged.append laterArranged, ?_⟩
    rw [List.map_append, taken, laterTaken, takeLabels_append, firstPlaces.1]

theorem Places.conditional {middle : LoweringState} {elseCode thenCode : Code}
    {kinds others : List ConstructKind}
    (elsePlaces : Places (state.withLabels .ifThen .ifEnd) middle elseCode kinds)
    (thenPlaces : Places middle after thenCode others) (cond : Value) :
    Places state after
      (.branch cond (state.nextLabel .ifThen) ::
        (elseCode ++ .goto (state.nextLabel .ifEnd) :: .label (state.nextLabel .ifThen) ::
          (thenCode ++ [.label (state.nextLabel .ifEnd)])))
      (.conditional :: (kinds ++ others)) := by
  have labelsEq : (state.withLabels .ifThen .ifEnd).names.nextLabel = _ :=
    nextLabel_withLabels state .conditional
  refine ⟨?_, fun start => ?_⟩
  · rw [thenPlaces.1, elsePlaces.1, labelsEq, ← advanceAll_append]
    rfl
  · obtain ⟨placements, arranged, taken⟩ := elsePlaces.2 (start + 1)
    obtain ⟨later, laterArranged, laterTaken⟩ :=
      thenPlaces.2 (start + 1 + elseCode.length + 1 + 1)
    obtain ⟨placement, constructEq, around⟩ := arranged.conditional laterArranged cond
      (state.nextLabel .ifThen) (state.nextLabel .ifEnd)
    refine ⟨_, around, ?_⟩
    rw [List.map_cons, List.map_append, constructEq, taken, laterTaken, elsePlaces.1, labelsEq,
      ← takeLabels_append]
    rfl

theorem Places.loop {entered : LoweringState} {condCode bodyCode : Code}
    {kinds : List ConstructKind} (plain : IsPlain condCode)
    (labelsEq : entered.names.nextLabel =
      (state.withLabels .whileCond .whileEnd).names.nextLabel)
    (bodyPlaces : Places entered after bodyCode kinds) (cond : Value) :
    Places state after
      (.label (state.nextLabel .whileCond) ::
        (condCode ++ .branch cond (state.nextLabel .whileEnd) ::
          (bodyCode ++ [.goto (state.nextLabel .whileCond), .label (state.nextLabel .whileEnd)])))
      (.loop :: kinds) := by
  have advanced : entered.names.nextLabel = _ :=
    labelsEq.trans (nextLabel_withLabels state .loop)
  refine ⟨?_, fun start => ?_⟩
  · rw [bodyPlaces.1, advanced]
    rfl
  · obtain ⟨placements, arranged, taken⟩ := bodyPlaces.2 (start + 1 + condCode.length + 1)
    obtain ⟨placement, constructEq, around⟩ := arranged.loop plain cond
      (state.nextLabel .whileCond) (state.nextLabel .whileEnd)
    refine ⟨_, around, ?_⟩
    rw [List.map_cons, constructEq, taken, advanced]
    rfl

/-- The code of a statement is arranged, and its constructs take their labels in order. -/
theorem LowersStmt.places {stmt : Stmt} {code : Code}
    (lowers : LowersStmt table stmt state code after) :
    Places state after code stmt.constructs := by
  induction lowers with
  | assignOperator _ _ _ lowersLeft lowersRight =>
      rw [Stmt.constructs]
      exact (((isPlain_of_isStraight lowersLeft.isStraight).append
        (isPlain_of_isStraight lowersRight.isStraight)).concat rfl).places
        (lowersRight.nextLabel_eq.trans lowersLeft.nextLabel_eq)
  | assignCall _ _ lowers | assignValue _ _ _ lowers | assignField _ _ lowers | exprCall lowers
  | returnValue _ lowers =>
      rw [Stmt.constructs]
      exact ((isPlain_of_isStraight lowers.isStraight).concat rfl).places lowers.nextLabel_eq
  | assignElement _ lowers lowersArray lowersPosition =>
      rw [Stmt.constructs]
      exact ((((isPlain_of_isStraight lowers.isStraight).append
        (isPlain_of_isStraight lowersArray.isStraight)).append
        (isPlain_of_isStraight lowersPosition.isStraight)).concat rfl).places
        (lowersPosition.nextLabel_eq.trans (lowersArray.nextLabel_eq.trans lowers.nextLabel_eq))
  | exprValue _ _ lowers =>
      rw [Stmt.constructs]
      exact (isPlain_of_isStraight lowers.isStraight).places lowers.nextLabel_eq
  | returnNothing _ =>
      rw [Stmt.constructs]
      exact IsPlain.places (List.forall_mem_singleton.mpr rfl) rfl
  | @ifElse cond thenBranch elseBranch state first second after lowered elseCode thenCode
      lowersCond _ _ elsePlaces thenPlaces =>
      have condPlaces : Places state first lowered.code [] :=
        (isPlain_of_isStraight lowersCond.isStraight).places lowersCond.nextLabel_eq
      rw [Stmt.constructs]
      simpa using condPlaces.append (elsePlaces.conditional thenPlaces lowered.value)
  | @whileLoop cond body state first after lowered bodyCode lowersCond _ bodyPlaces =>
      have plain :
          IsPlain (lowered.code ++ [.not (first.nextTemp table Ty.boolean) lowered.value]) :=
        (isPlain_of_isStraight lowersCond.isStraight).concat rfl
      rw [Stmt.constructs]
      simpa using bodyPlaces.loop plain
        ((nextLabel_withTemp table first Ty.boolean).trans lowersCond.nextLabel_eq)
        (first.nextTemp table Ty.boolean)
  | blockNil _ => exact IsPlain.places (List.forall_mem_nil _) rfl
  | blockCons _ _ firstPlaces restPlaces =>
      rw [Stmt.constructs, Stmt.constructsAll]
      rw [Stmt.constructs] at restPlaces
      exact firstPlaces.append restPlaces

end

end ThreeAddress

end ClassCompiler
