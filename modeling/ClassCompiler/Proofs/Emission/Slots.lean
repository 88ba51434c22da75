import ClassCompiler.Proofs.Effects
import ClassCompiler.StackCode.Frame
import Mathlib.Data.List.Nodup

/-!
# Slots

Names take slots one after the other, so the slot of a name is its position. The
frame of a method exists exactly if its names differ and there are not too many of
them, and otherwise the first name for which there is no slot decides the error. The
number of the next slot has sixteen bits and never wraps around.
-/

namespace ClassCompiler.StackCode

open Effects

/-- A table gives every name of a list its position, and no other name a slot. -/
structure Numbers (slots : Std.HashMap String Nat) (names : List String) : Prop where
  size_eq : slots.size = names.length
  slot_eq : ∀ name, slots[name]? = if name ∈ names then some (names.idxOf name) else none

theorem Numbers.empty : Numbers ∅ [] := ⟨rfl, by simp⟩

theorem Numbers.contains_eq {slots : Std.HashMap String Nat} {names : List String}
    (numbers : Numbers slots names) (name : String) :
    slots.contains name = decide (name ∈ names) := by
  rw [← Std.HashMap.isSome_getElem?_eq_contains, numbers.slot_eq name]
  by_cases member : name ∈ names <;> simp [member]

/-- A new name takes the next position. -/
theorem Numbers.insert {slots : Std.HashMap String Nat} {names : List String}
    (numbers : Numbers slots names) {name : String} (isNew : name ∉ names) :
    Numbers (slots.insert name names.length) (names ++ [name]) where
  size_eq := by
    rw [Std.HashMap.size_insert, if_neg, numbers.size_eq, List.length_append, List.length_singleton]
    simpa [← Std.HashMap.contains_iff_mem, numbers.contains_eq] using isNew
  slot_eq other := by
    rw [Std.HashMap.getElem?_insert, numbers.slot_eq other]
    by_cases same : name = other
    · subst same
      simp [isNew, List.idxOf_append_of_notMem]
    · by_cases member : other ∈ names
      · simp [same, member, List.idxOf_append_of_mem]
      · simp [same, member, Ne.symm same]

/-- A table has given slots to the names of a list, each its position, and the next slot is
the one behind them. -/
structure SlotTable.Holds (table : SlotTable) (names : List String) : Prop where
  numbers : Numbers table.slots names
  next_eq : table.next.toNat = names.length

theorem SlotTable.Holds.empty : SlotTable.Holds {} [] := ⟨.empty, rfl⟩

/-- Where there is room, the number of the next slot does not wrap around. -/
theorem SlotTable.Holds.insert {table : SlotTable} {names : List String}
    (holds : table.Holds names) (room : names.length < maxLocals) {name : String}
    (isNew : name ∉ names) :
    SlotTable.Holds ⟨table.slots.insert name table.next.toNat, table.next + 1⟩
      (names ++ [name]) where
  numbers := by
    rw [holds.next_eq]
    exact holds.numbers.insert isNew
  next_eq := by
    unfold maxLocals at room
    rw [UInt16.toNat_add, UInt16.toNat_one, holds.next_eq, List.length_append,
      List.length_singleton]
    omega

theorem bindSlot_eq_ok_iff {table : SlotTable} {names : List String} (holds : table.Holds names)
    (method name : String) (result : SlotTable) :
    bindSlot method table name = .ok result ↔
      (names.length < maxLocals ∧ name ∉ names) ∧
        result = ⟨table.slots.insert name table.next.toNat, table.next + 1⟩ := by
  rw [bindSlot, holds.numbers.size_eq, holds.numbers.contains_eq, @eq_comm _ result]
  by_cases full : maxLocals ≤ names.length
  · simp [full, Nat.not_lt.mpr full]
  · by_cases member : name ∈ names <;> simp [full, member, Nat.lt_of_not_le full]

/-- A name gets no slot because all slots are taken, or else because it has one. -/
theorem bindSlot_eq_error {table : SlotTable} {names : List String} (holds : table.Holds names)
    {method name : String} {error : CompileError}
    (failed : bindSlot method table name = .error error) :
    maxLocals ≤ names.length ∧ error = .tooManyLocals method ∨
      names.length < maxLocals ∧ name ∈ names ∧
        error = .internal (.declaredTwice name method) := by
  rw [bindSlot, holds.numbers.size_eq, holds.numbers.contains_eq] at failed
  split at failed
  · next full =>
      cases failed
      exact .inl ⟨full, rfl⟩
  · next room =>
      split at failed
      · next known =>
          cases failed
          exact .inr ⟨Nat.lt_of_not_le room, of_decide_eq_true known, rfl⟩
      · cases failed

/-- Names take slots after those that have some, exactly if all differ and there is
room for them. -/
theorem exists_foldlM_bindSlot_iff {table : SlotTable} {done : List String}
    (holds : table.Holds done) (distinct : done.Nodup) (room : done.length ≤ maxLocals)
    (method : String) (names : List String) :
    (∃ result, names.foldlM (bindSlot method) table = .ok result) ↔
      (done ++ names).Nodup ∧ (done ++ names).length ≤ maxLocals := by
  induction names generalizing table done with
  | nil => simp [distinct, room, pure, Except.pure]
  | cons name rest ih =>
      simp only [List.foldlM_cons, except_bind_eq_ok_iff, bindSlot_eq_ok_iff holds]
      by_cases free : done.length < maxLocals ∧ name ∉ done
      · have more := ih (holds.insert free.1 free.2)
          (distinct.append (List.nodup_singleton name) (by simpa using free.2))
          (by simpa using Nat.succ_le_of_lt free.1)
        rw [List.append_assoc, List.singleton_append] at more
        rw [← more]
        simp [free]
      · have refused : ¬((done ++ name :: rest).Nodup ∧
            (done ++ name :: rest).length ≤ maxLocals) := by
          rintro ⟨allDistinct, allRoom⟩
          refine free ⟨?_, fun member => ?_⟩
          · rw [List.length_append, List.length_cons] at allRoom
            omega
          · exact (List.disjoint_of_nodup_append allDistinct) member List.mem_cons_self
        refine iff_of_false ?_ refused
        rintro ⟨_, _, ⟨isFree, _⟩, _⟩
        exact free isFree

theorem holds_of_foldlM_bindSlot {table result : SlotTable} {done : List String}
    (holds : table.Holds done) {method : String} {names : List String}
    (bound : names.foldlM (bindSlot method) table = .ok result) :
    result.Holds (done ++ names) := by
  induction names generalizing table done with
  | nil =>
      cases bound
      simpa using holds
  | cons name rest ih =>
      rw [List.foldlM_cons, except_bind_eq_ok_iff] at bound
      rcases bound with ⟨_, boundName, boundRest⟩
      rw [bindSlot_eq_ok_iff holds] at boundName
      rcases boundName with ⟨⟨room, isNew⟩, rfl⟩
      simpa using ih (holds.insert room isNew) boundRest

/-- Where names fail to take slots: those before the place have theirs, and there all
slots are taken, or else the name has one. -/
structure FailsAt (method : String) (before : List String) (name : String)
    (error : CompileError) : Prop where
  distinct : before.Nodup
  cause : before.length = maxLocals ∧ error = .tooManyLocals method ∨
    before.length < maxLocals ∧ name ∈ before ∧ error = .internal (.declaredTwice name method)

/-- Names fail to take slots at the first name for which there is none. -/
theorem exists_failsAt_of_foldlM_bindSlot {table : SlotTable} {done : List String}
    (holds : table.Holds done) (distinct : done.Nodup) (room : done.length ≤ maxLocals)
    {method : String} {names : List String} {error : CompileError}
    (failed : names.foldlM (bindSlot method) table = .error error) :
    ∃ before name behind, names = before ++ name :: behind ∧
      FailsAt method (done ++ before) name error := by
  induction names generalizing table done with
  | nil => cases failed
  | cons name rest ih =>
      rw [List.foldlM_cons, except_bind_eq_error_iff] at failed
      rcases failed with refused | ⟨result, bound, failed⟩
      · refine ⟨[], name, rest, rfl, ?_⟩
        rw [List.append_nil]
        refine ⟨distinct, ?_⟩
        rcases bindSlot_eq_error holds refused with ⟨full, errorEq⟩ | repeated
        · exact .inl ⟨Nat.le_antisymm room full, errorEq⟩
        · exact .inr repeated
      · obtain ⟨⟨free, isNew⟩, rfl⟩ := (bindSlot_eq_ok_iff holds method name result).mp bound
        obtain ⟨before, other, behind, rfl, fails⟩ := ih
          (holds.insert free isNew)
          (distinct.append (List.nodup_singleton name) (by simpa using isNew))
          (by simpa using Nat.succ_le_of_lt free) failed
        rw [List.append_assoc, List.singleton_append] at fails
        exact ⟨name :: before, other, behind, rfl, fails⟩

variable {ι : Type}

/-- A method without a frame has a first name for which there is no slot. -/
theorem exists_failsAt_of_ofMethod {method : ThreeAddress.Method} {error : CompileError}
    (failed : (Frame.ofMethod method : Except CompileError (Frame ι)) = .error error) :
    ∃ before name behind, slotNames method = before ++ name :: behind ∧
      FailsAt method.name before name error := by
  rcases except_bind_eq_error_iff.mp failed with bound | ⟨_, _, returned⟩
  · simpa using exists_failsAt_of_foldlM_bindSlot .empty List.nodup_nil (Nat.zero_le _) bound
  · cases returned

/-- A method has no frame for want of room, or because some of its names are the same. -/
theorem ofMethod_eq_error {method : ThreeAddress.Method} {error : CompileError}
    (failed : (Frame.ofMethod method : Except CompileError (Frame ι)) = .error error) :
    error = .tooManyLocals method.name ∨
      ∃ name, error = .internal (.declaredTwice name method.name) ∧ ¬(slotNames method).Nodup := by
  obtain ⟨before, name, behind, namesEq, _, ⟨_, errorEq⟩ | ⟨_, known, errorEq⟩⟩ :=
    exists_failsAt_of_ofMethod failed
  · exact .inl errorEq
  · refine .inr ⟨name, errorEq, ?_⟩
    intro distinct
    rw [namesEq] at distinct
    exact List.disjoint_of_nodup_append distinct known List.mem_cons_self

/-- The frame of a method exists exactly if its names differ and fit. -/
theorem exists_ofMethod_iff (method : ThreeAddress.Method) :
    (∃ frame : Frame ι, Frame.ofMethod method = .ok frame) ↔
      (slotNames method).Nodup ∧ (slotNames method).length ≤ maxLocals := by
  have made := exists_foldlM_bindSlot_iff .empty List.nodup_nil (Nat.zero_le _) method.name
    (slotNames method)
  rw [List.nil_append] at made
  rw [← made]
  constructor
  · rintro ⟨_, frameEq⟩
    rcases except_bind_eq_ok_iff.mp frameEq with ⟨table, tableEq, _⟩
    exact ⟨table, tableEq⟩
  · rintro ⟨table, tableEq⟩
    exact ⟨.ofSlots method.name table, except_bind_eq_ok_iff.mpr ⟨table, tableEq, rfl⟩⟩

/-- The frame of a method holds the slots of its names, and nothing else yet. -/
theorem exists_holds_of_ofMethod {method : ThreeAddress.Method} {frame : Frame ι}
    (made : Frame.ofMethod method = .ok frame) :
    ∃ table : SlotTable, table.Holds (slotNames method) ∧
      frame = .ofSlots method.name table := by
  rcases except_bind_eq_ok_iff.mp made with ⟨table, tableEq, same⟩
  cases same
  exact ⟨table, by simpa using holds_of_foldlM_bindSlot .empty tableEq, rfl⟩

/-- The slot of a variable. -/
def slotOf (method : ThreeAddress.Method) (name : String) : Nat := (slotNames method).idxOf name

/-- The frame of a method gives every variable its slot. -/
theorem slot_of_ofMethod {method : ThreeAddress.Method} {frame : Frame ι}
    (made : Frame.ofMethod method = .ok frame) {symbol : Symbol}
    (member : symbol ∈ method.allVariables) :
    frame.slot symbol.name = .ok (slotOf method symbol.name) := by
  rcases exists_holds_of_ofMethod made with ⟨table, holds, rfl⟩
  have named : symbol.name ∈ slotNames method :=
    List.mem_append_right _ (List.mem_map_of_mem member)
  rw [Frame.slot, Frame.ofSlots, holds.numbers.slot_eq, if_pos named]
  rfl

/-! ## Slots of a method -/

/-- There is no slot for the name at a place: all slots are taken, or the name stands also
before the place. -/
def Refused (names : List String) (place : Nat) : Prop :=
  place = maxLocals ∨ ∃ name ∈ names.take place, names[place]? = some name

instance (names : List String) (place : Nat) : Decidable (Refused names place) :=
  inferInstanceAs (Decidable (place = maxLocals ∨
    ∃ name ∈ names.take place, names[place]? = some name))

/-- Among names that differ and fit, none is refused. -/
theorem not_refused_of_lt {before behind : List String} (distinct : before.Nodup)
    (fits : before.length ≤ maxLocals) {place : Nat} (inside : place < before.length) :
    ¬Refused (before ++ behind) place := by
  rintro (full | ⟨name, earlier, atPlace⟩)
  · omega
  · rw [List.take_append_of_le_length (Nat.le_of_lt inside)] at earlier
    rw [List.getElem?_append_left inside] at atPlace
    have later : name ∈ before.drop place := by
      rw [List.drop_eq_getElem_cons inside]
      rw [List.getElem?_eq_getElem inside] at atPlace
      exact List.mem_cons.mpr (.inl (Option.some.inj atPlace).symm)
    exact List.disjoint_take_drop distinct (Nat.le_refl place) earlier later

/-- The place at which names fail to take slots is the first at which one is refused. -/
theorem FailsAt.exists_refused {method name : String} {before behind : List String}
    {error : CompileError} (fails : FailsAt method before name error) :
    Refused (before ++ name :: behind) before.length ∧
      (∀ place < before.length, ¬Refused (before ++ name :: behind) place) ∧
      error = if before.length = maxLocals then .tooManyLocals method
        else .internal (.declaredTwice name method) := by
  have atPlace : (before ++ name :: behind)[before.length]? = some name := by simp
  rcases fails.cause with ⟨full, errorEq⟩ | ⟨room, known, errorEq⟩
  · refine ⟨.inl full, fun place => not_refused_of_lt fails.distinct (Nat.le_of_eq full), ?_⟩
    rw [if_pos full, errorEq]
  · refine ⟨.inr ⟨name, by simpa using known, atPlace⟩,
      fun place => not_refused_of_lt fails.distinct (Nat.le_of_lt room), ?_⟩
    rw [if_neg (Nat.ne_of_lt room), errorEq]

/-- The slot of a name is its position, and no other name has a slot. -/
theorem SlotTable.Holds.slot_eq {table : SlotTable} {names : List String}
    (holds : table.Holds names) (method name : String) :
    (Frame.ofSlots method table : Frame ι).slot name =
      if name ∈ names then .ok (names.idxOf name) else .error (.unresolvedSymbol name method) := by
  rw [Frame.slot, Frame.ofSlots, holds.numbers.slot_eq]
  by_cases member : name ∈ names <;> simp [member]

/-- A method has a frame exactly if its names differ and fit, and then the slot of each name
is its place among them. The number of the next slot counts the names that have a slot, also
in a method that has no frame in the end. Such a method fails at the first place at which a
name is refused. -/
theorem slots_are_places (method : ThreeAddress.Method) :
    ((∃ frame : Frame ι, Frame.ofMethod method = .ok frame) ↔
      (slotNames method).Nodup ∧ (slotNames method).length ≤ maxLocals) ∧
    (∀ frame : Frame ι, Frame.ofMethod method = .ok frame →
      (∀ place name, (slotNames method)[place]? = some name → frame.slot name = .ok place) ∧
      (∀ name ∉ slotNames method, frame.slot name = .error (.unresolvedSymbol name method.name)) ∧
      frame.locals = (slotNames method).length) ∧
    (∀ count ≤ (slotNames method).length, ∀ table,
      ((slotNames method).take count).foldlM (bindSlot method.name) {} = .ok table →
        table.next.toNat = count) ∧
    (∀ error, (Frame.ofMethod method : Except CompileError (Frame ι)) = .error error →
      ∃ place name, (slotNames method)[place]? = some name ∧
        Refused (slotNames method) place ∧
        (∀ earlier < place, ¬Refused (slotNames method) earlier) ∧
        error = if place = maxLocals then .tooManyLocals method.name
          else .internal (.declaredTwice name method.name)) := by
  refine ⟨exists_ofMethod_iff method, ?_, ?_, ?_⟩
  · intro frame made
    have distinct := ((exists_ofMethod_iff method).mp ⟨frame, made⟩).1
    obtain ⟨table, holds, rfl⟩ := exists_holds_of_ofMethod made
    refine ⟨?_, ?_, holds.next_eq⟩
    · intro place name atPlace
      obtain ⟨inside, rfl⟩ := List.getElem?_eq_some_iff.mp atPlace
      rw [holds.slot_eq, if_pos (List.getElem_mem inside), distinct.idxOf_getElem]
    · intro name absent
      rw [holds.slot_eq, if_neg absent]
  · intro count within table bound
    have holds := holds_of_foldlM_bindSlot .empty bound
    rw [holds.next_eq, List.nil_append, List.length_take, Nat.min_eq_left within]
  · intro error failed
    obtain ⟨before, name, behind, namesEq, fails⟩ := exists_failsAt_of_ofMethod failed
    rw [namesEq]
    exact ⟨before.length, name, by simp, fails.exists_refused⟩

/-- An instance method with a parameter, a local and a temporary. -/
def stepMethod : ThreeAddress.Method where
  name := "step"
  returnTy := Ty.int
  params := [⟨"by", Ty.int⟩]
  locals := [⟨"sum", Ty.int⟩]
  temps := [⟨"tmp0", Ty.boolean⟩]

/-- The same method with a local that has the name of its parameter. -/
def clashingMethod : ThreeAddress.Method :=
  { stepMethod with locals := [⟨"sum", Ty.int⟩, ⟨"by", Ty.int⟩] }

/-- One frame with its slots, and one method that fails at its fourth name. -/
theorem slots_are_places_step :
    (∃ frame : Frame Instr, Frame.ofMethod stepMethod = .ok frame ∧
      frame.slot "this" = .ok 0 ∧ frame.slot "tmp0" = .ok 3 ∧
      frame.slot "by0" = .error (.unresolvedSymbol "by0" "step") ∧ frame.locals = 4) ∧
    (Frame.ofMethod clashingMethod : Except CompileError (Frame Instr)) =
      .error (.internal (.declaredTwice "by" "step")) := by
  obtain ⟨hasFrame, hasSlots, _, _⟩ := @slots_are_places Instr stepMethod
  obtain ⟨hasNone, _, _, fails⟩ := @slots_are_places Instr clashingMethod
  constructor
  · obtain ⟨frame, made⟩ := hasFrame.mpr (by decide)
    obtain ⟨placed, missing, count⟩ := hasSlots frame made
    exact ⟨frame, made, placed 0 "this" rfl, placed 3 "tmp0" rfl, missing "by0" (by decide), count⟩
  · cases made : (Frame.ofMethod clashingMethod : Except CompileError (Frame Instr)) with
    | ok frame => exact absurd (hasNone.mp ⟨frame, made⟩) (by decide)
    | error error =>
        obtain ⟨place, name, atPlace, refused, first, rfl⟩ := fails error made
        have notBehind : ¬3 < place := fun behind => first 3 behind (by decide)
        obtain rfl | rfl | rfl | rfl : place = 0 ∨ place = 1 ∨ place = 2 ∨ place = 3 := by omega
        · exact absurd refused (by decide)
        · exact absurd refused (by decide)
        · exact absurd refused (by decide)
        · cases atPlace
          rfl

end ClassCompiler.StackCode
