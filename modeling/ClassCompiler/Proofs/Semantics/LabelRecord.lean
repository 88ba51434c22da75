import ClassCompiler.Proofs.Semantics.Body
import Mathlib.Data.List.Dedup
import Mathlib.Data.List.Induction

/-!
# The record of labels

A method records the positions of labels while its body grows at its end. Each instruction
that is appended changes the record at its own label only, so what is recorded of a label
stays the position of its last definition, with one entry for each label that is defined.
-/

namespace ClassCompiler.ThreeAddress

/-! ## What is recorded -/

/-- A position is that of the last definition of a label. -/
structure Code.IsLastLabel (body : Code) (label : String) (position : Nat) : Prop where
  defines : body[position]? = some (.label label)
  last : ∀ later, position < later → body[later]? ≠ some (.label label)

/-- What stands in a body with one more instruction at its end. -/
theorem getElem?_concat_eq_some {body : Code} {instr other : Instr} {place : Nat} :
    (body ++ [instr])[place]? = some other ↔
      body[place]? = some other ∨ place = body.length ∧ instr = other := by
  rcases Nat.lt_trichotomy place body.length with inside | rfl | outside
  · rw [List.getElem?_append_left inside, or_iff_left fun atEnd => Nat.ne_of_lt inside atEnd.1]
  · simp
  · have beyond : (body ++ [instr]).length ≤ place := by
      rw [List.length_append]
      exact outside
    rw [List.getElem?_eq_none beyond, List.getElem?_eq_none (Nat.le_of_lt outside)]
    simp [Nat.ne_of_gt outside]

/-- An instruction at the end of a body is the last definition of its own label, and no
definition of the others. -/
theorem isLastLabel_concat {body : Code} {instr : Instr} {label : String} {position : Nat} :
    Code.IsLastLabel (body ++ [instr]) label position ↔
      if instr = .label label then position = body.length
      else Code.IsLastLabel body label position := by
  split
  · next isOwn =>
    constructor
    · rintro ⟨defines, last⟩
      rcases getElem?_concat_eq_some.mp defines with inBody | ⟨atEnd, _⟩
      · obtain ⟨inside, _⟩ := List.getElem?_eq_some_iff.mp inBody
        exact absurd (getElem?_concat_eq_some.mpr (.inr ⟨rfl, isOwn⟩)) (last _ inside)
      · exact atEnd
    · rintro rfl
      refine ⟨getElem?_concat_eq_some.mpr (.inr ⟨rfl, isOwn⟩), fun later outside defines => ?_⟩
      rcases getElem?_concat_eq_some.mp defines with inBody | ⟨atEnd, _⟩
      · rw [List.getElem?_eq_none (Nat.le_of_lt outside)] at inBody
        cases inBody
      · exact absurd atEnd (Nat.ne_of_gt outside)
  · next isOther =>
    have sameLabels (place : Nat) : (body ++ [instr])[place]? = some (.label label) ↔
        body[place]? = some (.label label) := by
      rw [getElem?_concat_eq_some, or_iff_left fun atEnd => isOther atEnd.2]
    constructor
    · rintro ⟨defines, last⟩
      exact ⟨(sameLabels _).mp defines,
        fun later behind => mt (sameLabels _).mpr (last later behind)⟩
    · rintro ⟨defines, last⟩
      exact ⟨(sameLabels _).mpr defines,
        fun later behind => mt (sameLabels _).mp (last later behind)⟩

/-- The record of a method fits its body: there is one entry for each label that is defined,
with the position of its last definition. -/
structure Method.IsRecorded (method : Method) : Prop where
  position : ∀ label position, method.labels.lookup label = some position ↔
    method.body.IsLastLabel label position
  member : ∀ label, label ∈ method.labels.map Prod.fst ↔ label ∈ definedLabels method.body
  distinct : (method.labels.map Prod.fst).Nodup

namespace LabelMap

theorem lookup_filter_ne (labels : LabelMap) {name label : String} (isOther : name ≠ label) :
    (labels.filter fun entry => entry.1 != name).lookup label = labels.lookup label := by
  induction labels with
  | nil => rfl
  | cons entry rest ih =>
      by_cases isOwn : entry.1 = name
      · have passed : (label == entry.1) = false := by simp [isOwn, Ne.symm isOther]
        rw [List.filter_cons_of_neg (by simp [isOwn]), List.lookup_cons, passed, ih]
      · rw [List.filter_cons_of_pos (by simp [isOwn]), List.lookup_cons, List.lookup_cons,
          ih]

/-- Recording a position changes what is recorded of its own label only. -/
theorem lookup_insert (labels : LabelMap) (name label : String) (position : Nat) :
    (labels.insert name position).lookup label =
      if name = label then some position else labels.lookup label := by
  rw [insert, List.lookup_cons]
  by_cases isOwn : name = label
  · simp [isOwn]
  · rw [lookup_filter_ne labels isOwn, beq_eq_false_iff_ne.mpr (Ne.symm isOwn), if_neg isOwn]

theorem map_fst_insert (labels : LabelMap) (name : String) (position : Nat) :
    (labels.insert name position).map Prod.fst =
      name :: (labels.map Prod.fst).filter (· != name) := by
  rw [insert, List.map_cons, List.filter_map]
  rfl

end LabelMap

namespace Method.IsRecorded

variable {method : Method}

theorem empty (noCode : method.body = []) (noLabels : method.labels = []) : method.IsRecorded where
  position := by
    intro label position
    rw [noCode, noLabels]
    constructor
    · intro recorded
      cases recorded
    · rintro ⟨defines, _⟩
      cases defines
  member := by simp [noCode, noLabels]
  distinct := by simp [noLabels]

/-- A label takes the record of its name to the end of the body. -/
theorem push_label (recorded : method.IsRecorded) (name : String) :
    (method.push (.label name)).IsRecorded where
  position := by
    intro label position
    rw [body_push, isLastLabel_concat]
    change (method.labels.insert name method.body.length).lookup label = _ ↔ _
    rw [LabelMap.lookup_insert]
    by_cases isOwn : name = label
    · simp [isOwn, eq_comm]
    · simpa [isOwn] using recorded.position label position
  member := by
    intro label
    change label ∈ (method.labels.insert name method.body.length).map Prod.fst ↔ _
    rw [LabelMap.map_fst_insert, body_push, definedLabels_append, List.mem_append,
      ← recorded.member, List.mem_cons, List.mem_filter]
    by_cases isOwn : label = name <;> simp [isOwn, Instr.label?]
  distinct := by
    change ((method.labels.insert name method.body.length).map Prod.fst).Nodup
    rw [LabelMap.map_fst_insert]
    exact List.nodup_cons.mpr ⟨by simp, recorded.distinct.filter _⟩

/-- An instruction that is no label leaves the record as it is. -/
theorem push_other (recorded : method.IsRecorded) {instr : Instr} (isOther : instr.label? = none) :
    (method.push instr).IsRecorded := by
  have labels_eq : (method.push instr).labels = method.labels := by
    cases instr with
    | label name => cases isOther
    | _ => rfl
  have notLabel (label : String) : instr ≠ .label label := by
    rintro rfl
    cases isOther
  refine ⟨?_, ?_, ?_⟩
  · intro label position
    rw [labels_eq, body_push, isLastLabel_concat, if_neg (notLabel label), recorded.position]
  · intro label
    rw [labels_eq, recorded.member, body_push, definedLabels_append]
    simp [isOther]
  · rw [labels_eq]
    exact recorded.distinct

/-- Every instruction that is appended keeps the record in step with the body. -/
theorem push (recorded : method.IsRecorded) (instr : Instr) : (method.push instr).IsRecorded := by
  cases instr with
  | label name => exact recorded.push_label name
  | _ => exact recorded.push_other rfl

theorem extend (recorded : method.IsRecorded) (code : Code) : (method.extend code).IsRecorded := by
  induction code generalizing method with
  | nil =>
      have unchanged : method.extend [] = method := by simp [Method.extend, Code.record]
      rwa [unchanged]
  | cons instr rest ih =>
      rw [extend_cons]
      exact ih (recorded.push instr)

/-- As many labels are recorded as there are different ones in the body. -/
theorem labelCount_eq (recorded : method.IsRecorded) :
    method.labelCount = (definedLabels method.body).dedup.length := by
  rw [labelCount, ← List.length_map Prod.fst]
  refine (List.perm_ext_iff_of_nodup recorded.distinct (List.nodup_dedup _)).mpr ?_ |>.length_eq
  intro label
  rw [recorded.member, List.mem_dedup]

end Method.IsRecorded

/-! ## Appending -/

/-- What can be appended to a body: one instruction or several. -/
inductive Append where
  | push (instr : Instr)
  | extend (code : Code)
deriving DecidableEq, Repr, Inhabited

namespace Append

/-- The instructions that are appended. -/
def code : Append → Code
  | .push instr => [instr]
  | .extend code => code

/-- The method with the instructions at its end. -/
def apply (method : Method) : Append → Method
  | .push instr => method.push instr
  | .extend code => method.extend code

/-- Whatever is appended, the record stays in step with the body. -/
theorem isRecorded_foldl_apply {method : Method} (recorded : method.IsRecorded)
    (appends : List Append) : (appends.foldl apply method).IsRecorded := by
  induction appends generalizing method with
  | nil => exact recorded
  | cons append rest ih =>
      refine ih ?_
      cases append with
      | push instr => exact recorded.push instr
      | extend code => exact recorded.extend code

theorem body_apply (method : Method) (append : Append) :
    (append.apply method).body = method.body ++ append.code := by
  cases append <;> rfl

theorem body_foldl_apply (method : Method) (appends : List Append) :
    (appends.foldl apply method).body = method.body ++ appends.flatMap code := by
  induction appends generalizing method with
  | nil => exact (List.append_nil _).symm
  | cons append rest ih =>
      rw [List.foldl_cons, ih, body_apply, List.flatMap_cons, List.append_assoc]

end Append

end ClassCompiler.ThreeAddress
