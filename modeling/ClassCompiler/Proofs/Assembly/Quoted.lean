import ClassCompiler.Text.Quoted
import Mathlib.Data.List.TakeWhile

/-!
# Reading quoted text

Inside quotes a backslash starts an escape, and every other character stands for
itself. Reading undoes quoting, for every text.
-/

namespace ClassCompiler.Text

/-- The character for which a letter stands behind a backslash. -/
def escapedChar? : Char → Option Char
  | '"' => some '"'
  | '\\' => some '\\'
  | 'n' => some '\n'
  | 'r' => some '\r'
  | 't' => some '\t'
  | '0' => some '\x00'
  | _ => none

/-- What stands behind a backslash: a code point in braces or one letter. -/
def readEscape : List Char → Option (Char × List Char)
  | 'u' :: '\x7b' :: text =>
      match text.dropWhile (· ≠ '\x7d') with
      | [] => none
      | _ :: rest => (charOfHex? (text.takeWhile (· ≠ '\x7d'))).map (·, rest)
  | letter :: rest => (escapedChar? letter).map (·, rest)
  | [] => none

/-- The first character of quoted text, and the text behind it. -/
def readChar : List Char → Option (Char × List Char)
  | '\\' :: text => readEscape text
  | '"' :: _ => none
  | char :: rest => some (char, rest)
  | [] => none

theorem length_of_readEscape {text rest : List Char} {char : Char}
    (found : readEscape text = some (char, rest)) : rest.length < text.length := by
  unfold readEscape at found
  split at found
  · next text =>
    split at found
    · cases found
    · next first tail dropped =>
      rw [Option.map_eq_some_iff] at found
      rcases found with ⟨_, _, pairEq⟩
      cases pairEq
      have shorter := (List.dropWhile_suffix (· ≠ '\x7d') : _ <:+ text).length_le
      rw [dropped] at shorter
      simp only [List.length_cons] at shorter ⊢
      omega
  · rw [Option.map_eq_some_iff] at found
    rcases found with ⟨_, _, pairEq⟩
    cases pairEq
    exact Nat.lt_succ_self _
  · cases found

theorem length_of_readChar {text rest : List Char} {char : Char}
    (found : readChar text = some (char, rest)) : rest.length < text.length := by
  unfold readChar at found
  split at found
  · exact Nat.lt_succ_of_lt (length_of_readEscape found)
  · cases found
  · cases found
    exact Nat.lt_succ_self _
  · cases found

/-- Read quoted text up to the closing quote, which has to be the last character. -/
def readQuoted (text : List Char) : Option (List Char) :=
  if text = ['"'] then some []
  else
    match _ : readChar text with
    | none => none
    | some (char, rest) => (readQuoted rest).map (char :: ·)
termination_by text.length
decreasing_by exact length_of_readChar ‹_›

/-! ## Hexadecimal numbers -/

theorem hexDigit?_digitChar {digit : Nat} (small : digit < 16) :
    hexDigit? digit.digitChar = some digit := by
  have allDigits : ∀ digit < 16, hexDigit? digit.digitChar = some digit := by decide
  exact allDigits digit small

/-- A hexadecimal number consists of hexadecimal digits. -/
theorem exists_digit_of_mem_toDigits {number : Nat} {char : Char}
    (member : char ∈ Nat.toDigits 16 number) : ∃ digit < 16, char = digit.digitChar := by
  induction number using Nat.strongRecOn with
  | ind number ih =>
      rw [Nat.toDigits_eq_if (by decide)] at member
      split at member
      · next small => exact ⟨number, small, List.mem_singleton.mp member⟩
      · next large =>
        rcases List.mem_append.mp member with among | isLast
        · exact ih (number / 16) (by omega) among
        · exact ⟨number % 16, Nat.mod_lt number (by decide), List.mem_singleton.mp isLast⟩

theorem brace_notMem_toDigits (number : Nat) : '\x7d' ∉ Nat.toDigits 16 number := by
  intro member
  obtain ⟨digit, small, braceEq⟩ := exists_digit_of_mem_toDigits member
  have noBrace : ∀ digit < 16, '\x7d' ≠ Nat.digitChar digit := by decide
  exact noBrace digit small braceEq

/-- A hexadecimal number is read as it was written. -/
theorem ofHex?_toDigits (number : Nat) : ofHex? (Nat.toDigits 16 number) = some number := by
  induction number using Nat.strongRecOn with
  | ind number ih =>
      rw [Nat.toDigits_eq_if (by decide)]
      split
      · next small => simp [ofHex?, hexDigit?_digitChar small]
      · next large =>
        have quotient := ih (number / 16) (by omega)
        rw [ofHex?] at quotient ⊢
        rw [List.foldlM_append, quotient]
        have digit := hexDigit?_digitChar (Nat.mod_lt number (by decide : 0 < 16))
        simp [digit, Nat.div_add_mod]

theorem charOfHex?_toDigits (char : Char) :
    charOfHex? (Nat.toDigits 16 char.toNat) = some char := by
  rw [charOfHex?, ofHex?_toDigits]
  simp only [Char.ofNat_toNat]
  exact if_pos char.valid

/-! ## Round trip -/

theorem readEscape_code (char : Char) (rest : List Char) :
    readEscape ('u' :: '\x7b' :: (Nat.toDigits 16 char.toNat ++ '\x7d' :: rest)) =
      some (char, rest) := by
  have digitsOnly : ∀ digit ∈ Nat.toDigits 16 char.toNat, decide (digit ≠ '\x7d') = true := by
    intro digit member
    rw [decide_eq_true_eq]
    rintro rfl
    exact brace_notMem_toDigits char.toNat member
  have taken : (Nat.toDigits 16 char.toNat ++ '\x7d' :: rest).takeWhile (· ≠ '\x7d') =
      Nat.toDigits 16 char.toNat := by
    rw [List.takeWhile_append_of_pos digitsOnly]
    simp
  have dropped : (Nat.toDigits 16 char.toNat ++ '\x7d' :: rest).dropWhile (· ≠ '\x7d') =
      '\x7d' :: rest := by
    rw [List.dropWhile_append_of_pos digitsOnly]
    simp
  rw [readEscape, dropped, taken, charOfHex?_toDigits]
  rfl

/-- A character is read as it was written. -/
theorem readChar_escapeChar (char : Char) (rest : List Char) :
    readChar ((escapeChar char).toList ++ rest) = some (char, rest) := by
  rw [escapeChar]
  split
  · next isQuote =>
    subst isQuote
    rfl
  split
  · next isBackslash =>
    subst isBackslash
    rfl
  split
  · next isLineFeed =>
    subst isLineFeed
    rfl
  split
  · next isReturn =>
    subst isReturn
    rfl
  split
  · next isTab =>
    subst isTab
    rfl
  split
  · next isNul =>
    have charEq : char = '\x00' := Char.toNat_inj.mp isNul
    subst charEq
    rfl
  split
  · simp [hex, readChar, readEscape_code]
  · simp_all [readChar]

theorem readQuoted_of_readChar {text rest : List Char} {char : Char}
    (found : readChar text = some (char, rest)) :
    readQuoted text = (readQuoted rest).map (char :: ·) := by
  have notEnd : text ≠ ['"'] := by
    rintro rfl
    cases found
  rw [readQuoted, if_neg notEnd]
  split
  · next missing =>
    rw [found] at missing
    cases missing
  · next other =>
    rw [found] at other
    cases other
    rfl

/-- Quoted text is read as it was written. -/
theorem readQuoted_escaped (chars : List Char) :
    readQuoted ((String.join (chars.map escapeChar)).toList ++ ['"']) = some chars := by
  induction chars with
  | nil =>
      rw [readQuoted]
      rfl
  | cons char rest ih =>
      rw [List.map_cons, String.join_cons, String.toList_append, List.append_assoc,
        readQuoted_of_readChar (readChar_escapeChar char _), ih]
      rfl

end ClassCompiler.Text
