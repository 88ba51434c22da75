import ClassCompiler.Proofs.Lowering.Placements
import ClassCompiler.Proofs.Semantics.LabelRecord
import Mathlib.Data.List.Pairwise
import Mathlib.Order.Bounds.Basic

/-!
# Nesting of jumps

The labels of a lowered method are those of the conditionals and loops in its source. Each is
defined once and is the target of one jump, and only the jump that closes a loop goes back. The
positions of the labels and jumps of one construct lie between two of those of another one, or
all on one side of them.
-/

namespace ClassCompiler.ThreeAddress

/-! ## Positions of labels and jumps -/

namespace Placement

theorem map_snd_marks (placement : Placement) :
    placement.marks.map Prod.snd =
      [placement.first, placement.second, placement.third, placement.last] := by
  rcases placement with ⟨⟨kind, inner, outer⟩, _⟩
  cases kind <;> rfl

/-- What a construct defines are its labels. -/
theorem filterMap_label?_marks (placement : Placement) :
    (placement.marks.filterMap fun mark => mark.1.label?).Perm placement.construct.labels := by
  rcases placement with ⟨⟨kind, inner, outer⟩, _⟩
  cases kind <;> exact .refl _

/-- To each of its labels a construct jumps once. -/
theorem filterMap_target?_marks (placement : Placement) :
    (placement.marks.filterMap fun mark => mark.1.target?).Perm placement.construct.labels := by
  rcases placement with ⟨⟨kind, inner, outer⟩, _⟩
  cases kind with
  | conditional => exact .refl _
  | loop => exact .swap _ _ _

theorem exists_label_of_mem_marks {placement : Placement} {mark : Instr × Nat}
    (member : mark ∈ placement.marks) :
    ∃ label ∈ placement.construct.labels, mark.1.usedLabel? = some label := by
  rcases placement with ⟨⟨kind, inner, outer⟩, _⟩
  cases kind with
  | conditional | loop =>
      simp only [marks, List.mem_cons, List.not_mem_nil, or_false] at member
      rcases member with rfl | rfl | rfl | rfl <;> simp [Construct.labels, Instr.usedLabel?]

instance : Std.Symm NestedOrApart where
  symm one other related := by
    unfold NestedOrApart at related ⊢
    omega

/-- Constructs that have no label in common. -/
def IsApart (one other : Placement) : Prop :=
  List.Disjoint one.construct.labels other.construct.labels

instance : Std.Symm IsApart where
  symm _ _ isApart := List.Disjoint.symm isApart

end Placement

/-- The positions of the labels and jumps of a construct in a body. -/
def sites (body : Code) (construct : Construct) : Set Nat :=
  {position | ∃ instr, body[position]? = some instr ∧
    ∃ label ∈ construct.labels, instr.usedLabel? = some label}

namespace Arranged

variable {body : Code} {placements : List Placement} (arranged : Arranged 0 body placements)

include arranged

theorem perm_filterMap {read : Instr → Option String}
    (silent : ∀ instr : Instr, instr.usedLabel? = none → read instr = none)
    (each : ∀ placement : Placement,
      (placement.marks.filterMap fun mark => read mark.1).Perm placement.construct.labels) :
    (body.filterMap read).Perm
      (placements.flatMap fun placement => placement.construct.labels) := by
  rw [← filterMap_marks silent 0 body]
  refine (arranged.perm.filterMap _).trans ?_
  rw [List.filterMap_flatMap]
  exact List.Perm.flatMap_left placements fun placement _ => each placement

/-- A body defines the labels of its constructs. -/
theorem perm_definedLabels :
    (definedLabels body).Perm (placements.flatMap fun placement => placement.construct.labels) :=
  arranged.perm_filterMap (fun instr silent => by cases instr <;> first | rfl | cases silent)
    Placement.filterMap_label?_marks

/-- A body jumps to each label as often as it defines it. -/
theorem perm_targets : (body.filterMap Instr.target?).Perm (definedLabels body) :=
  (arranged.perm_filterMap (fun instr silent => by cases instr <;> first | rfl | cases silent)
    Placement.filterMap_target?_marks).trans arranged.perm_definedLabels.symm

theorem exists_placement {instr : Instr} {position : Nat} (atPlace : body[position]? = some instr)
    (used : instr.usedLabel?.isSome = true) :
    ∃ placement ∈ placements, (instr, position) ∈ placement.marks :=
  List.mem_flatMap.mp (arranged.perm.mem_iff.mp (mem_marks.mpr ⟨atPlace, used⟩))

theorem getElem?_of_mem_marks {placement : Placement} (member : placement ∈ placements)
    {instr : Instr} {position : Nat} (isMark : (instr, position) ∈ placement.marks) :
    body[position]? = some instr :=
  (mem_marks.mp (arranged.perm.mem_iff.mpr (List.mem_flatMap.mpr ⟨placement, member, isMark⟩))).1

variable (distinct : (definedLabels body).Nodup)

include distinct

theorem pairwise_isApart : placements.Pairwise Placement.IsApart :=
  (List.nodup_flatMap.mp (arranged.perm_definedLabels.nodup_iff.mp distinct)).2

/-- Constructs that share a label are the same. -/
theorem eq_of_mem_labels {one other : Placement} (oneMember : one ∈ placements)
    (otherMember : other ∈ placements) {label : String} (inOne : label ∈ one.construct.labels)
    (inOther : label ∈ other.construct.labels) : one = other := by
  by_contra differ
  exact (arranged.pairwise_isApart distinct).forall oneMember otherMember differ inOne inOther

/-- The labels and jumps of a construct stand at four positions. -/
theorem mem_sites_iff {placement : Placement} (member : placement ∈ placements) {position : Nat} :
    position ∈ sites body placement.construct ↔
      position ∈ [placement.first, placement.second, placement.third, placement.last] := by
  rw [← placement.map_snd_marks, List.mem_map]
  constructor
  · rintro ⟨instr, atPlace, label, isLabel, usedEq⟩
    obtain ⟨other, otherMember, isMark⟩ := arranged.exists_placement atPlace (by rw [usedEq]; rfl)
    obtain ⟨_, isOther, otherEq⟩ := Placement.exists_label_of_mem_marks isMark
    cases usedEq.symm.trans otherEq
    cases arranged.eq_of_mem_labels distinct member otherMember isLabel isOther
    exact ⟨_, isMark, rfl⟩
  · rintro ⟨⟨instr, _⟩, isMark, rfl⟩
    exact ⟨instr, arranged.getElem?_of_mem_marks member isMark,
      Placement.exists_label_of_mem_marks isMark⟩

theorem isLeast_sites {placement : Placement} (member : placement ∈ placements) :
    IsLeast (sites body placement.construct) placement.first ∧
      IsGreatest (sites body placement.construct) placement.last := by
  have firstLt := placement.first_lt
  have secondLt := placement.second_lt
  have thirdLt := placement.third_lt
  refine ⟨⟨(arranged.mem_sites_iff distinct member).mpr (by simp), fun position isSite => ?_⟩,
    (arranged.mem_sites_iff distinct member).mpr (by simp), fun position isSite => ?_⟩
  · rw [arranged.mem_sites_iff distinct member] at isSite
    simp only [List.mem_cons, List.not_mem_nil, or_false] at isSite
    omega
  · rw [arranged.mem_sites_iff distinct member] at isSite
    simp only [List.mem_cons, List.not_mem_nil, or_false] at isSite
    omega

end Arranged

theorem isLastLabel_of_nodup {body : Code} (distinct : (definedLabels body).Nodup) {label : String}
    {position : Nat} (defines : body[position]? = some (.label label)) :
    body.IsLastLabel label position := by
  have once : (definedLabels body).count label ≤ 1 := List.nodup_iff_count_le_one.mp distinct label
  refine ⟨defines, fun later behind definesAgain => ?_⟩
  have same := (labelPlace?_eq_some once defines).symm.trans (labelPlace?_eq_some once definesAgain)
  exact absurd (Option.some.inj same) (Nat.ne_of_lt behind)

/-! ## Methods -/

/-- The labels and jumps of a method are those of constructs. Each label is defined once and is
the target of one jump. A jump goes to a position of its method, and it goes back exactly if it
closes a loop. The positions of a construct begin and end somewhere, and two constructs are
nested or apart. -/
structure JumpsNest (constructs : List Construct) (method : Method) : Prop where
  distinct : constructs.Nodup
  labels : ∀ label, .label label ∈ method.body ↔
    ∃ construct ∈ constructs, label ∈ construct.labels
  defined_once : ∀ label, .label label ∈ method.body → method.body.count (.label label) = 1
  targeted_once : ∀ label, .label label ∈ method.body →
    method.body.countP (fun instr => instr.target? = some label) = 1
  resolve : ∀ position instr label, method.body[position]? = some instr →
    instr.target? = some label → ∃ target, method.labelIndex? label = some target ∧
      (target ≤ position ↔ ∃ number, instr = .goto (labelName .whileCond number))
  spans : ∀ construct ∈ constructs, ∃ first last,
    IsLeast (sites method.body construct) first ∧ IsGreatest (sites method.body construct) last
  nested : ∀ one ∈ constructs, ∀ other ∈ constructs, ∀ first last otherFirst otherLast,
    IsLeast (sites method.body one) first → IsGreatest (sites method.body one) last →
    IsLeast (sites method.body other) otherFirst →
    IsGreatest (sites method.body other) otherLast →
    one = other ∨ last < otherFirst ∨ otherLast < first ∨
      first < otherFirst ∧ otherLast < last ∨ otherFirst < first ∧ last < otherLast

theorem LowersMethod.places {table : SymbolTable} {decl : MethodDecl}
    {state after : LoweringState} {method : Method}
    (lowers : LowersMethod table decl state method after) :
    Places state after method.body (Stmt.constructsAll decl.body) := by
  cases lowers with
  | @intro signature _ last code found lowersBody =>
      have places := lowersBody.places
      rw [Stmt.constructs] at places
      change Places state _ (completeBody signature code) _
      rw [completeBody_eq]
      split
      · have returns : Places last last [.ret none] [] :=
          IsPlain.places (List.forall_mem_singleton.mpr rfl) rfl
        have whole := places.append returns
        rw [List.append_nil] at whole
        exact whole
      · exact places

theorem count_filterMap_eq_countP (read : Instr → Option String) (label : String) (code : Code) :
    (code.filterMap read).count label = code.countP fun instr => read instr = some label := by
  induction code with
  | nil => rfl
  | cons instr rest ih =>
      rw [List.countP_cons, ← ih]
      cases said : read instr with
      | none => simp [said]
      | some other => simp [said, List.count_cons]

theorem count_label (label : String) (code : Code) :
    code.count (.label label) = (definedLabels code).count label := by
  rw [definedLabels, count_filterMap_eq_countP, List.count]
  simp only [Instr.label?_eq_some]
  rfl

/-- A jump goes to a label of its own construct, and it goes back exactly if it closes a
loop. -/
theorem Arranged.exists_target {body : Code} {placements : List Placement}
    (arranged : Arranged 0 body placements) {next : LabelKind → Nat} {kinds : List ConstructKind}
    (taken : placements.map Placement.construct = takeLabels next kinds) {position : Nat}
    {instr : Instr} {label : String} (atPlace : body[position]? = some instr)
    (jumps : instr.target? = some label) :
    ∃ target, body[target]? = some (.label label) ∧
      (target ≤ position ↔ ∃ number, instr = .goto (labelName .whileCond number)) := by
  have used : instr.usedLabel?.isSome = true := by cases instr <;> first | rfl | cases jumps
  obtain ⟨placement, isPlaced, isMark⟩ := arranged.exists_placement atPlace used
  have atMark {other : Instr} {place : Nat} (member : (other, place) ∈ placement.marks) :
      body[place]? = some other := arranged.getElem?_of_mem_marks isPlaced member
  obtain ⟨⟨innerNumber, innerEq⟩, outerNumber, outerEq⟩ :=
    exists_labelName_of_mem_takeLabels (taken ▸ List.mem_map_of_mem isPlaced)
  rcases placement with ⟨⟨kind, inner, outer⟩, cond, first, second, third, last, firstLt, secondLt,
    thirdLt⟩
  cases kind with
  | conditional =>
      simp only [Placement.marks, List.mem_cons, Prod.mk.injEq, List.not_mem_nil, or_false]
        at isMark
      rcases isMark with ⟨rfl, rfl⟩ | ⟨rfl, rfl⟩ | ⟨rfl, rfl⟩ | ⟨rfl, rfl⟩
      · cases jumps
        exact ⟨third, atMark (by simp [Placement.marks]), by omega, by rintro ⟨_, ⟨⟩⟩⟩
      · cases jumps
        refine ⟨last, atMark (by simp [Placement.marks]), by omega, ?_⟩
        rintro ⟨number, sameInstr⟩
        obtain ⟨⟨⟩, _⟩ := labelName_inj.mp (outerEq.symm.trans (Instr.goto.inj sameInstr))
      · cases jumps
      · cases jumps
  | loop =>
      simp only [Placement.marks, List.mem_cons, Prod.mk.injEq, List.not_mem_nil, or_false]
        at isMark
      rcases isMark with ⟨rfl, rfl⟩ | ⟨rfl, rfl⟩ | ⟨rfl, rfl⟩ | ⟨rfl, rfl⟩
      · cases jumps
      · cases jumps
        exact ⟨last, atMark (by simp [Placement.marks]), by omega, by rintro ⟨_, ⟨⟩⟩⟩
      · cases jumps
        exact ⟨first, atMark (by simp [Placement.marks]),
          fun _ => ⟨innerNumber, congrArg _ innerEq⟩,
          fun _ => by omega⟩
      · cases jumps

/-- The body of a lowered method is appended to an empty one. -/
theorem LowersMethod.isRecorded {table : SymbolTable} {decl : MethodDecl}
    {state after : LoweringState} {method : Method}
    (lowers : LowersMethod table decl state method after) : method.IsRecorded := by
  cases lowers with
  | @intro signature _ last code _ _ =>
      have fresh :
          { methodOf signature last.scope.temps code with body := [], labels := [] }.IsRecorded :=
        .empty rfl rfl
      exact fresh.extend (completeBody signature code)

/-- In an arranged body with distinct labels jumps nest. -/
theorem Arranged.jumpsNest {method : Method} {placements : List Placement}
    (arranged : Arranged 0 method.body placements) (distinct : (definedLabels method.body).Nodup)
    (recorded : method.IsRecorded) {next : LabelKind → Nat} {kinds : List ConstructKind}
    (taken : placements.map Placement.construct = takeLabels next kinds) :
    JumpsNest (takeLabels next kinds) method where
  distinct := by
    rw [← taken, List.Nodup, List.pairwise_map]
    refine (arranged.pairwise_isApart distinct).imp fun isApart same => ?_
    exact isApart List.mem_cons_self (same ▸ List.mem_cons_self)
  labels := by
    intro label
    rw [← mem_definedLabels, arranged.perm_definedLabels.mem_iff, List.mem_flatMap, ← taken]
    simp
  defined_once := by
    intro label member
    rw [count_label]
    exact List.count_eq_one_of_mem distinct (mem_definedLabels.mpr member)
  targeted_once := by
    intro label member
    rw [← count_filterMap_eq_countP, arranged.perm_targets.count_eq]
    exact List.count_eq_one_of_mem distinct (mem_definedLabels.mpr member)
  resolve := by
    intro position instr label atPlace jumps
    obtain ⟨target, defines, goesBack⟩ := arranged.exists_target taken atPlace jumps
    exact ⟨target, (recorded.position _ _).mpr (isLastLabel_of_nodup distinct defines), goesBack⟩
  spans := by
    intro construct member
    rw [← taken] at member
    obtain ⟨placement, isPlaced, rfl⟩ := List.mem_map.mp member
    exact ⟨_, _, arranged.isLeast_sites distinct isPlaced⟩
  nested := by
    intro one isOne other isOther first last otherFirst otherLast leastOne greatestOne leastOther
      greatestOther
    rw [← taken] at isOne isOther
    obtain ⟨placement, isPlaced, rfl⟩ := List.mem_map.mp isOne
    obtain ⟨otherPlacement, otherPlaced, rfl⟩ := List.mem_map.mp isOther
    obtain ⟨least, greatest⟩ := arranged.isLeast_sites distinct isPlaced
    obtain ⟨otherLeast, otherGreatest⟩ := arranged.isLeast_sites distinct otherPlaced
    cases leastOne.unique least
    cases greatestOne.unique greatest
    cases leastOther.unique otherLeast
    cases greatestOther.unique otherGreatest
    by_cases same : placement = otherPlacement
    · exact .inl (congrArg _ same)
    · exact .inr (arranged.nested.forall isPlaced otherPlaced same)

/-- Whatever is appended to a new body, a label is found where it was defined last, and as many
labels are recorded as there are different ones in the body. In a lowered method jumps nest,
and its constructs are the conditionals and loops of its source. -/
theorem labels_recorded_and_jumps_nest :
    (∀ (method : Method) (appends : List Append),
      let built := appends.foldl Append.apply { method with body := [], labels := [] }
      built.body = appends.flatMap Append.code ∧
      (∀ label position, built.labelIndex? label = some position ↔
        built.body.IsLastLabel label position) ∧
      built.labelCount = (definedLabels built.body).dedup.length) ∧
    ∀ (table : SymbolTable) (decl : MethodDecl) (state : LoweringState) (method : Method)
      (after : LoweringState), lowerMethod table decl state = .ok method after →
      JumpsNest (takeLabels state.names.nextLabel (Stmt.constructsAll decl.body)) method := by
  constructor
  · intro method appends
    have recorded :
        (appends.foldl Append.apply { method with body := [], labels := [] }).IsRecorded :=
      Append.isRecorded_foldl_apply (.empty rfl rfl) appends
    exact ⟨Append.body_foldl_apply _ appends, recorded.position, recorded.labelCount_eq⟩
  · intro table decl state method after run
    have lowers := lowersMethod_of_eq_ok run
    obtain ⟨placements, arranged, taken⟩ := lowers.places.2 0
    exact arranged.jumpsNest lowers.labelled.1.distinct lowers.isRecorded taken

/-- A method with a loop in the positive branch of a conditional in a loop, and another
conditional behind them. -/
def patrolDecl : MethodDecl where
  name := "patrol"
  returnTy := Ty.void
  params := [⟨"awake", Ty.boolean⟩, ⟨"alone", Ty.boolean⟩]
  locals := []
  body := [
    .whileLoop (.var "awake")
      (.ifElse (.var "alone") (.whileLoop (.not (.var "awake")) (.block []))
        (.assign (.var "awake") (.bool false))),
    .ifElse (.var "awake") (.block []) (.block [])]
  isStatic := false
  isPublic := true

/-- The table of a class with this method. -/
def patrolTable : SymbolTable where
  className := "Guard"
  methods := [.ofDecl patrolDecl]

theorem labels_recorded_and_jumps_nest_patrol :
    ∃ method after, lowerMethod patrolTable patrolDecl
      { names := { whileCond := 3, whileEnd := 3 } }
        = .ok method after ∧
      JumpsNest [⟨.loop, "whileCond3", "whileEnd3"⟩, ⟨.conditional, "ifThen0", "ifEnd0"⟩,
        ⟨.loop, "whileCond4", "whileEnd4"⟩, ⟨.conditional, "ifThen1", "ifEnd1"⟩] method := by
  obtain ⟨method, after, run⟩ : ∃ method after,
      lowerMethod patrolTable patrolDecl { names := { whileCond := 3, whileEnd := 3 } } =
        .ok method after := ⟨_, _, rfl⟩
  exact ⟨method, after, run, labels_recorded_and_jumps_nest.2 _ _ _ _ _ run⟩

end ClassCompiler.ThreeAddress
