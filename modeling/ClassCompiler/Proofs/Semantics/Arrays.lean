import ClassCompiler.Proofs.Effects
import ClassCompiler.Proofs.Semantics.Source

/-!
# Arrays made from values

A new array takes the next address of the heap. Storing values one after the other changes
one place of it at a time and keeps the others, so in the end every place reads as the
value that was stored there, and the rest of the memory is as before. Nothing can go wrong
on the way if the places can hold the values.
-/

namespace ClassCompiler.Semantics

open Effects

/-! ## Single places -/

/-- A value that a place of a sort can hold. -/
def Val.Fits (storage : Storage) (value : Val Scalar) : Prop :=
  ∃ datum, value.toDatum storage = .ok datum

/-- A place keeps what is put there. -/
theorem ofDatum_of_toDatum {storage : Storage} {value : Val Scalar} {datum : Datum}
    (kept : value.toDatum storage = .ok datum) :
    Val.ofDatum datum = value ∧ datum.storage = storage := by
  cases storage with
  | int | bool =>
      rcases value with ⟨_ | _⟩ | _ <;> cases kept
      exact ⟨rfl, rfl⟩
  | ref =>
      rcases value with _ | _ <;> cases kept
      exact ⟨rfl, rfl⟩

namespace Cell

/-- An array that has a place of a sort at an index. -/
def HasPlace (cell : Cell) (storage : Storage) (index : Nat) : Prop :=
  ∃ datum, cell.element storage index = .ok datum

/-- What the change of one place does to an array. -/
structure Changes (cell : Cell) (index : Nat) (datum : Datum) (changed : Cell) : Prop where
  length_eq : changed.length = cell.length
  element_eq : changed.element datum.storage index = .ok datum
  element_ne : ∀ storage other, other ≠ index →
    changed.element storage other = cell.element storage other

theorem changes_of_setElement {cell changed : Cell} {index : Nat} {datum : Datum}
    (run : cell.setElement index datum = .ok changed) : cell.Changes index datum changed := by
  have keeps {α : Type} (elements : List α) (value : α) {other : Nat} (apart : other ≠ index) :
      (elements.set index value)[other]? = elements[other]? :=
    List.getElem?_set_ne apart.symm
  cases cell with
  | object path fields => cases run
  | ints elements | bools elements | refs path elements =>
      cases datum <;> simp only [setElement, reduceCtorEq] at run
      split at run
      · next inside =>
          cases run
          refine ⟨by simp [length], by simp [element, Datum.storage, inside], ?_⟩
          intro storage other apart
          cases storage <;> simp only [element, keeps _ _ apart]
      · cases run

/-- A place can be changed if there is one. -/
theorem HasPlace.setElement {cell : Cell} {index : Nat} {datum : Datum}
    (place : cell.HasPlace datum.storage index) :
    ∃ changed, cell.setElement index datum = .ok changed := by
  obtain ⟨held, read⟩ := place
  have inside {α : Type} {elements : List α} {wrap : α → Datum}
      (found : ((elements[index]?.map wrap).elim (.error .badIndex) .ok : Except Abort Datum) =
        .ok held) : index < elements.length := by
    rcases Nat.lt_or_ge index elements.length with inside | outside
    · exact inside
    · rw [List.getElem?_eq_none outside] at found
      cases found
  cases cell with
  | object path fields => cases read
  | ints elements =>
      cases datum with
      | int value => exact ⟨_, if_pos (inside read)⟩
      | bool value => cases read
      | ref value => cases read
  | bools elements =>
      cases datum with
      | int value => cases read
      | bool value => exact ⟨_, if_pos (inside read)⟩
      | ref value => cases read
  | refs path elements =>
      cases datum with
      | int value => cases read
      | bool value => cases read
      | ref value => exact ⟨_, if_pos (inside read)⟩

theorem length_newArray (path : String) (size : Nat) (storage : Storage) :
    (newArray path size storage).length = .ok size := by
  cases storage <;> simp [newArray, length]

theorem hasPlace_newArray (path : String) (storage : Storage) {size index : Nat}
    (inside : index < size) : (newArray path size storage).HasPlace storage index := by
  refine ⟨Datum.initial storage, ?_⟩
  cases storage <;> simp [newArray, element, Datum.initial, inside]

end Cell

theorem not_ofNat_lt_zero {number : Nat} (bound : number < 2147483648) :
    ¬Int32.ofNat number < 0 := by
  rw [Int32.lt_iff_toInt_lt, Int32.toInt_ofNat_of_lt bound]
  simp

theorem Heap.position_ofNat {index : Nat} (bound : index < 2147483648) :
    position (Int32.ofNat index) = .ok index := by
  rw [position, if_neg (not_ofNat_lt_zero bound), Int32.toNatClampNeg_ofNat_of_lt bound]

/-! ## Storing values one after the other -/

section Stores

variable {front : Heap} {cell : Cell} {trace : List (CallEvent Scalar)}
  {after : Memory Scalar} {storage : Storage}

theorem cellAt_last (front : Heap) (cell : Cell) :
    Heap.cellAt (front ++ [cell]) (.address front.length) = .ok (front.length, cell) := by
  simp [Heap.cellAt]

theorem setElement_last {index : Nat} (bound : index < 2147483648) (datum : Datum) :
    Heap.setElement (front ++ [cell]) (.address front.length) (Int32.ofNat index) datum =
      (cell.setElement index datum).map fun changed => front ++ [changed] := by
  rw [Heap.setElement, cellAt_last, Heap.position_ofNat bound]
  change (cell.setElement index datum >>= _) = _
  cases cell.setElement index datum with
  | ok changed => exact congrArg Except.ok (by simp)
  | error reason => rfl

/-- An assignment to the newest array changes one of its places. -/
theorem writeElement_last {index : Nat} {value : Val Scalar} (bound : index < 2147483648) :
    writeElement storage (.ref (.address front.length)) (.int (Int32.ofNat index)) value
        ⟨front ++ [cell], trace⟩ = .ok () after ↔
      ∃ datum changed, value.toDatum storage = .ok datum ∧
        cell.setElement index datum = .ok changed ∧ after = ⟨front ++ [changed], trace⟩ := by
  rw [writeElement, Val.toRef, bind_of_ok (attempt_ok _ _)]
  change (attempt (.ok (Int32.ofNat index)) >>= _) _ = _ ↔ _
  rw [bind_of_ok (attempt_ok _ _)]
  cases kept : value.toDatum storage with
  | error reason => simp [bind_of_error (attempt_error _ _)]
  | ok datum =>
      rw [bind_of_ok (attempt_ok _ _), replaceHeap, bind_of_ok (get_apply _),
        setElement_last bound]
      cases changes : cell.setElement index datum with
      | error reason =>
          simp [Except.map, bind_of_error (attempt_error _ _), changes]
      | ok changed =>
          simp [Except.map, bind_of_ok (attempt_ok _ _), set_apply, changes, eq_comm]

/-- An array after values have been put into its places from one place on. -/
structure Cell.Receives (cell : Cell) (storage : Storage) (start : Nat)
    (values : List (Val Scalar)) (filled : Cell) : Prop where
  length_eq : filled.length = cell.length
  element_eq : ∀ offset value, values[offset]? = some value →
    (filled.element storage (start + offset)).map Val.ofDatum = .ok value
  element_before : ∀ storage index, index < start →
    filled.element storage index = cell.element storage index

/-- Assignments one after the other fill the newest array and change nothing else. -/
theorem storeAll_last {elem : Ty} {start : Nat} {values : List (Val Scalar)}
    (bound : start + values.length ≤ 2147483648)
    (run : storeAll elem (.ref (.address front.length)) start values ⟨front ++ [cell], trace⟩ =
      .ok () after) :
    ∃ filled, cell.Receives (storageOf elem) start values filled ∧
      after = ⟨front ++ [filled], trace⟩ := by
  induction values generalizing start cell with
  | nil =>
      cases run
      exact ⟨cell, ⟨rfl, by simp, fun _ _ _ => rfl⟩, rfl⟩
  | cons value rest ih =>
      rw [List.length_cons] at bound
      rw [storeAll] at run
      obtain ⟨_, middle, writes, runRest⟩ := bind_eq_ok_iff.mp run
      obtain ⟨datum, changed, kept, sets, rfl⟩ := (writeElement_last (by omega)).mp writes
      have changes := Cell.changes_of_setElement sets
      obtain ⟨filled, receives, afterEq⟩ := ih (by omega) runRest
      refine ⟨filled, ⟨receives.length_eq.trans changes.length_eq, ?_, ?_⟩, afterEq⟩
      · intro offset stored among
        cases offset with
        | zero =>
            -- the later assignments are to later places
            cases among
            obtain ⟨valueEq, sortEq⟩ := ofDatum_of_toDatum kept
            rw [Nat.add_zero, receives.element_before _ _ (Nat.lt_succ_self _), ← sortEq,
              changes.element_eq]
            exact congrArg Except.ok valueEq
        | succ offset =>
            rw [← Nat.succ_add_eq_add_succ]
            exact receives.element_eq offset stored among
      · intro storage index before
        rw [receives.element_before _ _ (by omega), changes.element_ne _ _ (by omega)]

/-- Values that fit are stored if there are places for them. -/
theorem exists_storeAll_last (front : Heap) (trace : List (CallEvent Scalar)) {elem : Ty}
    {start : Nat} {values : List (Val Scalar)} (bound : start + values.length ≤ 2147483648)
    (fits : ∀ value ∈ values, value.Fits (storageOf elem))
    (places : ∀ index, start ≤ index → index < start + values.length →
      cell.HasPlace (storageOf elem) index) :
    ∃ after, storeAll elem (.ref (.address front.length)) start values
      ⟨front ++ [cell], trace⟩ = .ok () after := by
  induction values generalizing start cell with
  | nil => exact ⟨_, rfl⟩
  | cons value rest ih =>
      rw [List.length_cons] at bound places
      obtain ⟨datum, kept⟩ := fits value List.mem_cons_self
      have place := places start (Nat.le_refl _) (by omega)
      rw [← (ofDatum_of_toDatum kept).2] at place
      obtain ⟨changed, sets⟩ := place.setElement
      have others : ∀ index, start + 1 ≤ index → index < start + 1 + rest.length →
          changed.HasPlace (storageOf elem) index := by
        intro index later inside
        rw [Cell.HasPlace, (Cell.changes_of_setElement sets).element_ne _ _ (by omega)]
        exact places index (by omega) (by omega)
      obtain ⟨after, runRest⟩ := ih (by omega)
        (fun value among => fits value (List.mem_cons_of_mem _ among)) others
      rw [storeAll]
      exact ⟨after, bind_eq_ok_iff.mpr ⟨(), _,
        (writeElement_last (by omega)).mpr ⟨datum, changed, kept, sets, rfl⟩, runRest⟩⟩

end Stores

/-! ## Arrays of values -/

/-- An array on the heap that holds given values and nothing else. -/
structure HoldsValues (heap : Heap) (elem : Ty) (array : Val Scalar)
    (values : List (Val Scalar)) : Prop where
  length_eq : readLength heap array = .ok (.int (Int32.ofNat values.length))
  element_eq : ∀ index value, values[index]? = some value →
    readElement heap (storageOf elem) array (.int (Int32.ofNat index)) = .ok value

/-- An array of values has been made, and nothing else has happened. -/
structure MakesArray (memory : Memory Scalar) (elem : Ty) (values : List (Val Scalar))
    (array : Val Scalar) (after : Memory Scalar) : Prop where
  array_eq : array = .ref (.address memory.heap.length)
  heap_eq : ∃ cell, after.heap = memory.heap ++ [cell]
  trace_eq : after.trace = memory.trace
  holds : HoldsValues after.heap elem array values

theorem createArray_ofNat (path : String) (storage : Storage) {size : Nat}
    (bound : size < 2147483648) (memory : Memory Scalar) :
    createArray path storage (.int (Int32.ofNat size) : Val Scalar) memory =
      .ok (.ref (.address memory.heap.length))
        ⟨memory.heap ++ [.newArray path size storage], memory.trace⟩ := by
  change (attempt (.ok (Int32.ofNat size)) >>= _) _ = _
  rw [bind_of_ok (attempt_ok _ _), if_neg (not_ofNat_lt_zero bound),
    Int32.toNatClampNeg_ofNat_of_lt bound]
  rfl

section

variable {world : World Scalar} {elem : Ty} {values : List (Val Scalar)}
  {memory after : Memory Scalar} {array : Val Scalar}

theorem makesArray_of_evalArray (bound : values.length < 2147483648)
    (run : evalArray world elem values memory = .ok array after) :
    MakesArray memory elem values array after := by
  rw [evalArray, bind_of_ok (createArray_ofNat _ _ bound memory)] at run
  obtain ⟨_, last, stores, ends⟩ := bind_eq_ok_iff.mp run
  cases ends
  obtain ⟨filled, receives, rfl⟩ := storeAll_last (by omega) stores
  refine ⟨rfl, ⟨filled, rfl⟩, rfl, ?_, ?_⟩
  · change (Heap.arrayLength _ _ >>= _) = _
    rw [Heap.arrayLength, cellAt_last]
    change ((filled.length >>= _) >>= _) = _
    rw [receives.length_eq, Cell.length_newArray]
    rfl
  · intro index value among
    have inside : index < values.length := (List.getElem?_eq_some_iff.mp among).1
    have elementEq := receives.element_eq index value among
    rw [Nat.zero_add] at elementEq
    change (Heap.element _ _ _ _ >>= _) = _
    rw [Heap.element, cellAt_last, Heap.position_ofNat (by omega)]
    exact elementEq

/-- An array can be made from values that fit its places. -/
theorem exists_evalArray (world : World Scalar) (memory : Memory Scalar)
    (bound : values.length < 2147483648) (fits : ∀ value ∈ values, value.Fits (storageOf elem)) :
    ∃ array after, evalArray world elem values memory = .ok array after := by
  have places : ∀ index, 0 ≤ index → index < 0 + values.length →
      (Cell.newArray (world.path elem.name) values.length (storageOf elem)).HasPlace
        (storageOf elem) index :=
    fun index _ inside => Cell.hasPlace_newArray _ _ (by omega)
  obtain ⟨after, stores⟩ := exists_storeAll_last memory.heap memory.trace (by omega) fits places
  refine ⟨.ref (.address memory.heap.length), after, ?_⟩
  rw [evalArray, bind_of_ok (createArray_ofNat _ _ bound memory)]
  exact bind_eq_ok_iff.mpr ⟨(), _, stores, rfl⟩

end

end ClassCompiler.Semantics
