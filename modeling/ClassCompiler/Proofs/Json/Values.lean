import ClassCompiler.Json.Value
import ClassCompiler.Proofs.Json.Documents

/-!
# Reading written values

A value is read back from its document if the reader may open as many containers as are
nested in it, and is refused if it may not. This holds of plain values: numbers are whole
and have 64 bits, and the fields of objects are sorted by key, so that sorting them again
changes nothing.
-/

namespace ClassCompiler.Json

/-! ## Nesting -/

namespace Document

mutual

/-- How deep the arrays and objects of a document are nested. -/
def nesting : Document → Nat
  | .array items => itemNesting items + 1
  | .object fields => fieldNesting fields + 1
  | .null | .bool _ | .number _ | .string _ => 0

/-- How deep arrays and objects are nested in the items of an array. -/
def itemNesting : List Document → Nat
  | [] => 0
  | item :: rest => max (nesting item) (itemNesting rest)

/-- How deep arrays and objects are nested in the fields of an object. -/
def fieldNesting : List (Option String × Document) → Nat
  | [] => 0
  | (_, value) :: rest => max (nesting value) (fieldNesting rest)

end

end Document

/-- What is read of something nested so deep, with the given depth left. -/
def within {α : Type} (levels depth : Nat) (value : α) : Option α :=
  if levels ≤ depth then some value else none

section

variable {α β γ : Type} {levels others depth : Nat}

theorem within_succ (value : α) :
    within (levels + 1) (depth + 1) value = within levels depth value := by
  simp [within]

theorem map_within (convert : α → β) (value : α) :
    (within levels depth value).map convert = within levels depth (convert value) := by
  unfold within
  split <;> rfl

/-- Two parts are both read exactly if neither is nested too deep. -/
theorem bind_within (combine : α → β → γ) (first : α) (second : β) :
    (within levels depth first >>= fun first =>
      within others depth second >>= fun second => pure (combine first second)) =
      within (max levels others) depth (combine first second) := by
  unfold within
  by_cases fits : levels ≤ depth
  · by_cases othersFit : others ≤ depth
    · rw [if_pos fits, if_pos othersFit, if_pos (Nat.max_le.mpr ⟨fits, othersFit⟩)]
      rfl
    · rw [if_pos fits, if_neg othersFit, if_neg fun both => othersFit (Nat.max_le.mp both).2]
      rfl
  · rw [if_neg fits, if_neg fun both => fits (Nat.max_le.mp both).1]
    rfl

end

/-! ## Whole numbers -/

/-- Whole numbers that fit into 64 bits, with or without a sign. -/
def Number.IsWord : Number → Prop
  | .int value => Int64.minValue.toInt ≤ value ∧ value < UInt64.size
  | .float _ => False

instance (number : Number) : Decidable number.IsWord :=
  match number with
  | .int value => inferInstanceAs (Decidable (Int64.minValue.toInt ≤ value ∧ value < UInt64.size))
  | .float _ => isFalse id

/-- The digits of a positive number do not start with a zero. -/
theorem head_toDigits_ne_zero {number : Nat} (positive : 0 < number) :
    ∃ first ∈ (Nat.toDigits 10 number).head?, first ≠ '0' := by
  induction number using Nat.strongRecOn with
  | ind number ih =>
      rw [Nat.toDigits_eq_if (by decide)]
      split
      · next isDigit =>
          have each : ∀ digit < 10, 0 < digit → Nat.digitChar digit ≠ '0' := by decide
          exact ⟨Nat.digitChar number, rfl, each number isDigit positive⟩
      · obtain ⟨first, isHead, notZero⟩ :=
          ih (number / 10) (by omega) (by omega)
        exact ⟨first, by simp_all, notZero⟩

theorem isWritten_int (value : Int) : (Number.int value).literal.IsWritten where
  whole_digits _ member := Nat.isDigit_of_mem_toDigits (by decide) (by decide) member
  whole_start := by
    rcases Nat.eq_zero_or_pos value.natAbs with isZero | positive
    · exact .inl (congrArg (Nat.toDigits 10) isZero)
    · exact .inr (head_toDigits_ne_zero positive)
  fraction_digits := List.forall_mem_nil _
  exponent_digits _ given := by cases given

theorem value?_literal {number : Number} (isWord : number.IsWord) :
    number.literal.value? = some number := by
  cases number with
  | float bits => exact isWord.elim
  | int value =>
      obtain ⟨least, most⟩ := isWord
      have natOf : Decimal.natOf (Nat.toDigits 10 value.natAbs) = value.natAbs :=
        Nat.ofDigitChars_ten_toDigits
      unfold NumberLiteral.value?
      simp only [Number.literal, NumberLiteral.isWhole, natOf]
      by_cases negative : value < 0
      · have positive : 0 < value.natAbs := by omega
        have negated : -(value.natAbs : Int) = value := by omega
        have fits : Int64.minValue.toInt ≤ -(value.natAbs : Int) := negated.symm ▸ least
        rw [if_neg (by simp [negative]), if_pos (by simp only [negative, positive, fits]; rfl),
          negated]
      · have fits : value.natAbs < UInt64.size := by omega
        have same : (value.natAbs : Int) = value := by omega
        simp [negative, fits, same]

/-! ## Sorted fields -/

/-- Fields that are sorted by key, each key once. -/
def SortedByKey {α : Type} (fields : List (String × α)) : Prop :=
  (fields.map Prod.fst).Pairwise (· < ·)

instance {α : Type} (fields : List (String × α)) : Decidable (SortedByKey fields) :=
  inferInstanceAs (Decidable ((fields.map Prod.fst).Pairwise (· < ·)))

section

variable {α : Type}

/-- A key behind all others goes to the end. -/
theorem insertField_eq_append {name : String} {value : α} {fields : List (String × α)}
    (behind : ∀ key ∈ fields.map Prod.fst, key < name) :
    insertField name value fields = fields ++ [(name, value)] := by
  induction fields with
  | nil => rfl
  | cons field rest ih =>
      obtain ⟨other, held⟩ := field
      rw [List.map_cons, List.forall_mem_cons] at behind
      have notBefore : ¬name < other := String.lt_asymm behind.1
      have notSame : name ≠ other := by
        rintro rfl
        exact String.lt_irrefl _ behind.1
      rw [insertField, if_neg notBefore, if_neg notSame, ih behind.2]
      rfl

theorem foldl_insertField {sorted fields : List (String × α)}
    (isSorted : SortedByKey (sorted ++ fields)) :
    fields.foldl (fun sorted field => insertField field.1 field.2 sorted) sorted =
      sorted ++ fields := by
  induction fields generalizing sorted with
  | nil => exact (List.append_nil sorted).symm
  | cons field rest ih =>
      have behind : ∀ key ∈ sorted.map Prod.fst, key < field.1 := by
        unfold SortedByKey at isSorted
        rw [List.map_append, List.pairwise_append] at isSorted
        exact fun key member => isSorted.2.2 key member field.1 List.mem_cons_self
      rw [List.append_cons] at isSorted ⊢
      rw [List.foldl_cons, insertField_eq_append behind, ih isSorted]

/-- Sorting sorted fields changes nothing. -/
theorem sortFields_of_sortedByKey {fields : List (String × α)} (isSorted : SortedByKey fields) :
    sortFields fields = fields :=
  foldl_insertField isSorted

end

/-! ## Values -/

namespace Value

/-- Values whose numbers are whole and whose objects have their fields sorted by key. -/
inductive IsPlain : Value → Prop
  | null : IsPlain .null
  | bool (value : Bool) : IsPlain (.bool value)
  | number {value : Number} (isWord : value.IsWord) : IsPlain (.number value)
  | string (text : String) : IsPlain (.string text)
  | array {items : List Value} (each : ∀ item ∈ items, IsPlain item) : IsPlain (.array items)
  | object {fields : List (String × Value)} (sorted : SortedByKey fields)
      (each : ∀ field ∈ fields, IsPlain field.2) : IsPlain (.object fields)

mutual

theorem isWritten_toDocument : (value : Value) → value.IsPlain → value.toDocument.IsWritten
  | .null, _ => .null
  | .bool value, _ => .bool value
  | .number (.int value), _ => .number (isWritten_int value)
  | .string text, _ => .string (some text)
  | .array items, .array each => .array (isWritten_toDocuments items each)
  | .object fields, .object _ each => .object (isWritten_toDocumentFields fields each)

theorem isWritten_toDocuments : (items : List Value) → (∀ item ∈ items, item.IsPlain) →
    ∀ document ∈ toDocuments items, document.IsWritten
  | [], _ => List.forall_mem_nil _
  | item :: rest, each => by
      rw [List.forall_mem_cons] at each
      rw [toDocuments, List.forall_mem_cons]
      exact ⟨isWritten_toDocument item each.1, isWritten_toDocuments rest each.2⟩

theorem isWritten_toDocumentFields : (fields : List (String × Value)) →
    (∀ field ∈ fields, field.2.IsPlain) →
    ∀ field ∈ toDocumentFields fields, field.2.IsWritten
  | [], _ => List.forall_mem_nil _
  | (key, value) :: rest, each => by
      rw [List.forall_mem_cons] at each
      rw [toDocumentFields, List.forall_mem_cons]
      exact ⟨isWritten_toDocument value each.1, isWritten_toDocumentFields rest each.2⟩

end

mutual

/-- A plain value is read from its document exactly if it is not nested too deep. -/
theorem ofDocument?_toDocument : (value : Value) → value.IsPlain → ∀ depth,
    ofDocument? depth value.toDocument = within value.toDocument.nesting depth value
  | .null, _, _ | .bool _, _, _ | .string _, _, _ => rfl
  | .number value, .number isWord, depth => by
      rw [toDocument, ofDocument?, value?_literal isWord]
      rfl
  | .array items, .array each, depth => by
      rw [toDocument, Document.nesting]
      cases depth with
      | zero => rfl
      | succ inner =>
          rw [ofDocument?, within_succ]
          simp only [ofDocuments?_toDocuments items each inner, map_within]
  | .object fields, .object sorted each, depth => by
      rw [toDocument, Document.nesting]
      cases depth with
      | zero => rfl
      | succ inner =>
          rw [ofDocument?, within_succ]
          simp only [ofDocumentFields?_toDocumentFields fields each inner, map_within, ofFields,
            sortFields_of_sortedByKey sorted]

theorem ofDocuments?_toDocuments : (items : List Value) → (∀ item ∈ items, item.IsPlain) →
    ∀ depth, ofDocuments? depth (toDocuments items) =
      within (Document.itemNesting (toDocuments items)) depth items
  | [], _, _ => rfl
  | item :: rest, each, depth => by
      rw [List.forall_mem_cons] at each
      rw [toDocuments, ofDocuments?, ofDocument?_toDocument item each.1,
        ofDocuments?_toDocuments rest each.2, Document.itemNesting]
      exact bind_within List.cons item rest

theorem ofDocumentFields?_toDocumentFields : (fields : List (String × Value)) →
    (∀ field ∈ fields, field.2.IsPlain) → ∀ depth,
    ofDocumentFields? depth (toDocumentFields fields) =
      within (Document.fieldNesting (toDocumentFields fields)) depth fields
  | [], _, _ => rfl
  | (key, value) :: rest, each, depth => by
      rw [List.forall_mem_cons] at each
      rw [toDocumentFields, ofDocumentFields?, ofDocument?_toDocument value each.1,
        ofDocumentFields?_toDocumentFields rest each.2, Document.fieldNesting]
      exact bind_within (fun value values => (key, value) :: values) value rest

end

end Value

end ClassCompiler.Json
