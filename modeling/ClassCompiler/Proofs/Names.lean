import ClassCompiler.NameSupply
import ClassCompiler.StackCode.Comparison
import Mathlib.Data.List.Nodup
import Mathlib.Data.List.TakeWhile

/-!
# Numbered names

A generated name is a word without digits and a number. It determines both, so
names from one supply differ whenever their word or their number does, and a
temporary never gets a name that is taken.
-/

namespace ClassCompiler

/-- The characters of a word are no digits. -/
def IsWord (word : String) : Prop := ∀ char ∈ word.toList, char.isDigit = false

/-- A word and a number can be read off the name they form. -/
theorem numbered_inj {word other : String} (isWord : IsWord word) (otherIsWord : IsWord other)
    {m n : Nat} : word ++ toString m = other ++ toString n ↔ word = other ∧ m = n := by
  have leadingWord {word : String} (isWord : IsWord word) (number : Nat) :
      (word ++ toString number).toList.takeWhile (fun char => !char.isDigit) = word.toList := by
    rw [String.toList_append, List.takeWhile_append_of_pos (by simpa [IsWord] using isWord),
      List.append_right_eq_self, List.takeWhile_eq_nil_iff, Nat.toString_eq_repr, Nat.toList_repr]
    intro nonempty
    simpa using Nat.isDigit_of_mem_toDigits (by decide) (by decide) (List.getElem_mem nonempty)
  constructor
  · intro equal
    have wordEq : word = other := by
      rw [← String.toList_inj, ← leadingWord isWord m, equal, leadingWord otherIsWord n]
    subst wordEq
    have digitsEq := congrArg String.toList ((String.append_right_inj word).mp equal)
    rw [Nat.toString_eq_repr, Nat.toString_eq_repr, Nat.toList_repr, Nat.toList_repr] at digitsEq
    have numberEq := congrArg (fun digits => Nat.ofDigitChars 10 digits 0) digitsEq
    exact ⟨rfl, by simpa using numberEq⟩
  · rintro ⟨rfl, rfl⟩
    rfl

/-! ## Labels -/

theorem LabelKind.isWord_word (kind : LabelKind) : IsWord kind.word := by
  cases kind <;> simp [IsWord, LabelKind.word]

theorem LabelKind.word_injective : Function.Injective LabelKind.word := by
  intro kind other equal
  cases kind <;> cases other <;> simp_all [LabelKind.word]

/-- A label determines its kind and its number. -/
theorem labelName_inj {kind other : LabelKind} {m n : Nat} :
    labelName kind m = labelName other n ↔ kind = other ∧ m = n := by
  rw [labelName, labelName, numbered_inj kind.isWord_word other.isWord_word,
    LabelKind.word_injective.eq_iff]

/-! ## Temporaries -/

theorem tempName_inj {m n : Nat} : tempName m = tempName n ↔ m = n := by
  have isWord : IsWord "tmp" := by simp [IsWord]
  rw [tempName, tempName, numbered_inj isWord isWord, and_iff_right rfl]

namespace NameSupply

theorem le_freeNumber (taken : List String) (start : Nat) : start ≤ freeNumber taken start := by
  unfold freeNumber
  cases found : (List.range' start taken.length).find?
      (fun number => !taken.contains (tempName number)) with
  | none => simp
  | some number =>
      have member := List.mem_of_find?_eq_some found
      rw [List.mem_range'_1] at member
      exact member.1

/-- One more name than there are taken names cannot all be taken. -/
theorem exists_tempName_not_mem (taken : List String) (start : Nat) :
    ∃ number ∈ List.range' start (taken.length + 1), tempName number ∉ taken := by
  by_contra allTaken
  push Not at allTaken
  have distinct : ((List.range' start (taken.length + 1)).map tempName).Nodup :=
    List.Nodup.map (fun _ _ equal => tempName_inj.mp equal) (List.nodup_range' 1)
  have bound : _ ≤ taken.length := distinct.length_le_of_subset (by
    simpa only [List.map_subset_iff, List.subset_def, List.mem_map, forall_exists_index, and_imp,
      forall_apply_eq_imp_iff₂] using allTaken)
  rw [List.length_map, List.length_range'] at bound
  omega

/-- The name of a free number is not taken. -/
theorem tempName_freeNumber_not_mem (taken : List String) (start : Nat) :
    tempName (freeNumber taken start) ∉ taken := by
  unfold freeNumber
  cases found : (List.range' start taken.length).find?
      (fun number => !taken.contains (tempName number)) with
  | some number => simpa using List.find?_some found
  | none =>
      rw [List.find?_eq_none] at found
      rcases exists_tempName_not_mem taken start with ⟨number, member, free⟩
      rw [List.range'_1_concat, List.mem_append, List.mem_singleton] at member
      rcases member with among | rfl
      · exact absurd free (by simpa using found number among)
      · exact free

end NameSupply

end ClassCompiler
