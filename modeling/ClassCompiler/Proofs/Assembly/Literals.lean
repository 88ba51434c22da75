import ClassCompiler.Proofs.Assembly.Quoted

/-!
# String literals

A quoted text keeps to its line and ends where it should, whatever it quotes: each of its
characters can be shown, and none of its quotes is bare but the first and the last one. A
quote, a backslash or a code point in the quoted text never looks like one of the escapes,
so two texts are never quoted alike.
-/

namespace ClassCompiler.Text

/-! ## Bare quotes -/

/-- The places of the quotes behind a given place that are not escaped. A backslash escapes
the character behind it, unless it is escaped itself. -/
def quotesFrom (place : Nat) (escaped : Bool) : List Char → List Nat
  | [] => []
  | char :: rest =>
      (if char = '"' ∧ escaped = false then [place] else []) ++
        quotesFrom (place + 1) (!escaped && char == '\\') rest

/-- The places of the quotes of a text that are not escaped. -/
def bareQuotes (text : String) : List Nat := quotesFrom 0 false text.toList

/-- Characters that stand for themselves in a quoted text. -/
def IsShown (char : Char) : Prop := char ≠ '"' ∧ char ≠ '\\' ∧ isUnprintable char = false

instance (char : Char) : Decidable (IsShown char) :=
  inferInstanceAs (Decidable (char ≠ '"' ∧ char ≠ '\\' ∧ isUnprintable char = false))

theorem quotesFrom_shown {chars : List Char} (shown : ∀ char ∈ chars, IsShown char)
    (place : Nat) (rest : List Char) :
    quotesFrom place false (chars ++ rest) = quotesFrom (place + chars.length) false rest := by
  induction chars generalizing place with
  | nil => rfl
  | cons char chars ih =>
      rw [List.forall_mem_cons] at shown
      obtain ⟨⟨notQuote, notBackslash, _⟩, others⟩ := shown
      have place_eq : place + (char :: chars).length = place + 1 + chars.length := by
        rw [List.length_cons]
        omega
      rw [place_eq, ← ih others (place + 1), List.cons_append, quotesFrom]
      rw [if_neg (fun isQuote => notQuote isQuote.1), beq_eq_false_iff_ne.mpr notBackslash]
      rfl

theorem quotesFrom_escape (letter : Char) (place : Nat) (rest : List Char) :
    quotesFrom place false ('\\' :: letter :: rest) = quotesFrom (place + 2) false rest := by
  simp [quotesFrom]

/-! ## Escapes -/

theorem isShown_of_mem_toDigits {number : Nat} {char : Char}
    (member : char ∈ Nat.toDigits 16 number) : IsShown char := by
  obtain ⟨digit, small, rfl⟩ := exists_digit_of_mem_toDigits member
  have allDigits : ∀ digit < 16, IsShown digit.digitChar := by decide
  exact allDigits digit small

/-- A character is written as it is, or as a backslash, a letter and characters that stand
for themselves. -/
theorem toList_escapeChar (char : Char) :
    (IsShown char ∧ (escapeChar char).toList = [char]) ∨
      ∃ letter tail, (escapeChar char).toList = '\\' :: letter :: tail ∧
        isUnprintable letter = false ∧ ∀ other ∈ tail, IsShown other := by
  have oneLetter (letter : Char) (shown : isUnprintable letter = false) :
      ∃ other tail, ['\\', letter] = '\\' :: other :: tail ∧ isUnprintable other = false ∧
        ∀ last ∈ tail, IsShown last :=
    ⟨letter, [], rfl, shown, List.forall_mem_nil _⟩
  rw [escapeChar]
  split
  · exact .inr (oneLetter '"' (by decide))
  next notQuote =>
  split
  · exact .inr (oneLetter '\\' (by decide))
  next notBackslash =>
  split
  · exact .inr (oneLetter 'n' (by decide))
  split
  · exact .inr (oneLetter 'r' (by decide))
  split
  · exact .inr (oneLetter 't' (by decide))
  split
  · exact .inr (oneLetter '0' (by decide))
  split
  · refine .inr ⟨'u', '\x7b' :: (Nat.toDigits 16 char.toNat ++ ['\x7d']), ?_, by decide, ?_⟩
    · simp [hex]
    · rw [List.forall_mem_cons, List.forall_mem_append, List.forall_mem_singleton]
      exact ⟨by decide, fun digit => isShown_of_mem_toDigits, by decide⟩
  · next printable =>
    exact .inl ⟨⟨notQuote, notBackslash, by simpa using printable⟩, String.toList_singleton char⟩

theorem quotesFrom_escapeChar (char : Char) (place : Nat) (rest : List Char) :
    quotesFrom place false ((escapeChar char).toList ++ rest) =
      quotesFrom (place + (escapeChar char).toList.length) false rest := by
  rcases toList_escapeChar char with ⟨shown, charsEq⟩ | ⟨letter, tail, charsEq, _, shown⟩
  · rw [charsEq]
    exact quotesFrom_shown (List.forall_mem_singleton.mpr shown) place rest
  · have place_eq : place + ('\\' :: letter :: tail).length = place + 2 + tail.length := by
      rw [List.length_cons, List.length_cons]
      omega
    rw [charsEq, List.cons_append, List.cons_append, quotesFrom_escape, quotesFrom_shown shown,
      place_eq]

theorem quotesFrom_escaped (chars : List Char) (place : Nat) (rest : List Char) :
    quotesFrom place false ((String.join (chars.map escapeChar)).toList ++ rest) =
      quotesFrom (place + (String.join (chars.map escapeChar)).toList.length) false rest := by
  induction chars generalizing place with
  | nil => simp
  | cons char chars ih =>
      rw [List.map_cons, String.join_cons, String.toList_append, List.append_assoc,
        quotesFrom_escapeChar, ih, List.length_append, Nat.add_assoc]

theorem isUnprintable_of_mem_escaped {chars : List Char} {char : Char}
    (member : char ∈ (String.join (chars.map escapeChar)).toList) :
    isUnprintable char = false := by
  induction chars with
  | nil => simp at member
  | cons first chars ih =>
      rw [List.map_cons, String.join_cons, String.toList_append, List.mem_append] at member
      rcases member with among | later
      · rcases toList_escapeChar first with
          ⟨shown, charsEq⟩ | ⟨letter, tail, charsEq, shown, others⟩
        · rw [charsEq, List.mem_singleton] at among
          exact among ▸ shown.2.2
        · rw [charsEq, List.mem_cons, List.mem_cons] at among
          rcases among with rfl | rfl | among
          · decide
          · exact shown
          · exact (others char among).2.2
      · exact ih later

/-! ## Literals -/

/-- The value of a string literal. -/
def readLiteral? (text : String) : Option String :=
  match text.toList with
  | '"' :: rest => (readQuoted rest).map String.ofList
  | _ => none

/-- A text is a string literal for a value: it can be shown on a line, its bare quotes are
its first and its last character, and undoing the escapes between them gives the value. -/
structure IsLiteral (text value : String) : Prop where
  shown : ∀ char ∈ text.toList, isUnprintable char = false
  quotes : bareQuotes text = [0, text.length - 1]
  value_eq : readLiteral? text = some value

theorem toList_quoted (value : String) :
    (quoted value).toList =
      '"' :: ((String.join (value.toList.map escapeChar)).toList ++ ['"']) := by
  simp [quoted]

theorem isLiteral_quoted (value : String) : IsLiteral (quoted value) value where
  shown := by
    rw [toList_quoted, List.forall_mem_cons, List.forall_mem_append, List.forall_mem_singleton]
    exact ⟨by decide, fun char => isUnprintable_of_mem_escaped, by decide⟩
  quotes := by
    rw [bareQuotes, ← String.length_toList, toList_quoted, quotesFrom]
    simp only [Bool.not_false, Bool.true_and, Char.reduceBEq]
    rw [quotesFrom_escaped]
    simp [quotesFrom, Nat.add_comm]
  value_eq := by
    rw [readLiteral?, toList_quoted]
    exact (congrArg (Option.map String.ofList) (readQuoted_escaped value.toList)).trans
      (congrArg some String.ofList_toList)

/-- Two texts are never quoted alike. -/
theorem quoted_injective {first second : String} (same : quoted first = quoted second) :
    first = second := by
  have read := (isLiteral_quoted first).value_eq
  rw [same, (isLiteral_quoted second).value_eq] at read
  exact (Option.some.inj read).symm

/-- No literal holds a line break. -/
theorem IsLiteral.notMem {text value : String} (isLiteral : IsLiteral text value) :
    '\n' ∉ text.toList := by
  intro member
  have printable := isLiteral.shown '\n' member
  cases printable

end ClassCompiler.Text
