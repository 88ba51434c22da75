import ClassCompiler.Json.Printer
import Mathlib.Data.List.TakeWhile

/-!
# Reading printed documents

Printing a document and reading the text gives the document back. Reading goes through
tokens, so this is two facts: the printed text has the tokens of the document, and the
tokens of a document are read as the document. The first needs that numbers are written
by the rules of the format, and holds of strings without further condition: each
character is escaped by itself, and no escape that printing uses names a surrogate,
except where the string has no text.
-/

namespace ClassCompiler.Json

/-! ## Strings -/

theorem ofHex?_control {code : Nat} (isControl : code < 32) :
    Text.ofHex? ['0', '0', Nat.digitChar (code / 16), Nat.digitChar (code % 16)] = some code := by
  have each : ∀ code < 32, Text.ofHex? ['0', '0', Nat.digitChar (code / 16),
      Nat.digitChar (code % 16)] = some code := by decide
  exact each code isControl

theorem stringPieces?_plain {c : Char} (notQuote : c ≠ '"') (notEscape : c ≠ '\\')
    (notControl : ¬ c.toNat < 32) (text : List Char) :
    stringPieces? (c :: text) =
      (stringPieces? text).map fun (pieces, rest) => (.char c :: pieces, rest) := by
  rw [stringPieces?, if_neg (by simp [notEscape, notControl])]
  · cases stringPieces? text <;> rfl
  · exact notQuote
  · exact fun _ _ _ _ _ isEscape => absurd isEscape notEscape
  · exact fun _ _ isEscape => absurd isEscape notEscape

theorem stringPieces?_control {c : Char} (isControl : c.toNat < 32) (text : List Char) :
    stringPieces? ('\\' :: 'u' :: '0' :: '0' :: Nat.digitChar (c.toNat / 16) ::
        Nat.digitChar (c.toNat % 16) :: text) =
      (stringPieces? text).map fun (pieces, rest) => (.unit c.toNat :: pieces, rest) := by
  rw [stringPieces?, ofHex?_control isControl]
  cases stringPieces? text <;> rfl

/-- A unit that is no surrogate is a character of its own, whatever follows it. -/
theorem pieceChars?_unit {unit : Nat} (notSurrogate : unit < 0xD800) (pieces : List Piece) :
    pieceChars? (.unit unit :: pieces) = (pieceChars? pieces).map (Char.ofNat unit :: ·) := by
  have notHigh : isHighSurrogate unit = false := by simp [isHighSurrogate]; omega
  have notLow : isLowSurrogate unit = false := by simp [isLowSurrogate]; omega
  cases pieces with
  | nil => simp [pieceChars?, notHigh, notLow]
  | cons next pieces =>
      cases next with
      | char c | unit low => simp [pieceChars?, notHigh, notLow]

/-- A character of a string is written as one part, which names this character. -/
theorem exists_piece (c : Char) : ∃ piece,
    (∀ text, stringPieces? (stringChar c ++ text) =
      (stringPieces? text).map fun (pieces, rest) => (piece :: pieces, rest)) ∧
    ∀ pieces, pieceChars? (piece :: pieces) = (pieceChars? pieces).map (c :: ·) := by
  have letter (escape : Char) (named : escapedChar? escape = some c) (notUnit : escape ≠ 'u')
      (text : List Char) : stringPieces? ('\\' :: escape :: text) =
        (stringPieces? text).map fun (pieces, rest) => (.char c :: pieces, rest) := by
    rw [stringPieces?, named]
    · cases stringPieces? text <;> rfl
    · exact fun _ _ _ _ _ isUnit => absurd isUnit notUnit
  unfold stringChar
  split
  · exact ⟨.char '"', letter _ rfl (by decide), fun _ => rfl⟩
  · exact ⟨.char '\\', letter _ rfl (by decide), fun _ => rfl⟩
  · exact ⟨.char '\x08', letter _ rfl (by decide), fun _ => rfl⟩
  · exact ⟨.char '\x0c', letter _ rfl (by decide), fun _ => rfl⟩
  · exact ⟨.char '\n', letter _ rfl (by decide), fun _ => rfl⟩
  · exact ⟨.char '\r', letter _ rfl (by decide), fun _ => rfl⟩
  · exact ⟨.char '\t', letter _ rfl (by decide), fun _ => rfl⟩
  · next notQuote notEscape _ _ _ _ _ =>
    split
    · next isControl =>
      refine ⟨.unit c.toNat, stringPieces?_control isControl, fun pieces => ?_⟩
      rw [pieceChars?_unit (by omega), Char.ofNat_toNat]
    · next notControl =>
      exact ⟨.char c, stringPieces?_plain notQuote notEscape notControl, fun _ => rfl⟩

theorem exists_pieces (chars : List Char) : ∃ pieces, pieceChars? pieces = some chars ∧
    ∀ rest, stringPieces? (chars.flatMap stringChar ++ '"' :: rest) = some (pieces, rest) := by
  induction chars with
  | nil => exact ⟨[], rfl, fun rest => by simp [stringPieces?]⟩
  | cons c chars ih =>
      obtain ⟨pieces, named, written⟩ := ih
      obtain ⟨piece, writtenFirst, namedFirst⟩ := exists_piece c
      refine ⟨piece :: pieces, ?_, fun rest => ?_⟩
      · rw [namedFirst, named, Option.map_some]
      · rw [List.flatMap_cons, List.append_assoc, writtenFirst, written, Option.map_some]

theorem token?_string (text : Option String) (rest : List Char) :
    ∃ chars, stringChars text = '"' :: chars ∧
      token? '"' (chars ++ rest) = some (.string text, rest) := by
  cases text with
  | none => exact ⟨_, rfl, rfl⟩
  | some text =>
      obtain ⟨pieces, named, written⟩ := exists_pieces text.toList
      refine ⟨text.toList.flatMap stringChar ++ ['"'], rfl, ?_⟩
      rw [List.append_assoc]
      change ((stringPieces? (text.toList.flatMap stringChar ++ '"' :: rest)).map _) = _
      simp only [written, named, Option.map_some, String.ofList_toList]

/-! ## Numbers -/

/-- A number as the format writes it: a lone zero or digits that start with none, and at
least one digit in an exponent. -/
structure NumberLiteral.IsWritten (literal : NumberLiteral) : Prop where
  whole_digits : ∀ c ∈ literal.whole, c.isDigit = true
  whole_start : literal.whole = ['0'] ∨ ∃ first ∈ literal.whole.head?, first ≠ '0'
  fraction_digits : ∀ c ∈ literal.fraction, c.isDigit = true
  exponent_digits : ∀ exponent ∈ literal.exponent,
    exponent.2 ≠ [] ∧ ∀ c ∈ exponent.2, c.isDigit = true

/-- A text that does not go on with a run of digits. -/
def EndsDigits (rest : List Char) : Prop := ∀ c ∈ rest.head?, c.isDigit = false

/-- A text that does not go on with a number. -/
def EndsNumber (rest : List Char) : Prop :=
  ∀ c ∈ rest.head?, c.isDigit = false ∧ c ≠ '.' ∧ c ≠ 'e' ∧ c ≠ 'E'

theorem EndsNumber.endsDigits {rest : List Char} (ends : EndsNumber rest) : EndsDigits rest :=
  fun c isHead => (ends c isHead).1

theorem spanDigits_of_endsDigits {digits rest : List Char}
    (areDigits : ∀ c ∈ digits, c.isDigit = true)
    (ends : EndsDigits rest) : Decimal.spanDigits (digits ++ rest) = (digits, rest) := by
  unfold Decimal.spanDigits
  rw [List.takeWhile_append_of_pos areDigits, List.dropWhile_append_of_pos areDigits]
  cases rest with
  | nil => simp
  | cons c rest =>
      have notDigit : c.isDigit = false := ends c rfl
      simp [notDigit]

theorem wholeDigits?_of_endsDigits {digits rest : List Char}
    (areDigits : ∀ c ∈ digits, c.isDigit = true)
    (start : digits = ['0'] ∨ ∃ first ∈ digits.head?, first ≠ '0') (ends : EndsDigits rest) :
    wholeDigits? (digits ++ rest) = some (digits, rest) := by
  rcases start with rfl | ⟨first, isHead, notZero⟩
  · rfl
  · cases digits with
    | nil => cases isHead
    | cons c digits =>
        cases isHead
        unfold wholeDigits?
        split
        · next heq =>
          cases heq
          exact absurd rfl notZero
        · rw [spanDigits_of_endsDigits areDigits ends]
          rfl

/-- The characters of a fraction. -/
def fractionChars (digits : List Char) : List Char := if digits.isEmpty then [] else '.' :: digits

/-- The characters of an exponent. -/
def exponentChars : Option (Bool × List Char) → List Char
  | none => []
  | some (negative, digits) => 'e' :: (if negative then '-' else '+') :: digits

theorem chars_eq (literal : NumberLiteral) :
    literal.chars = (if literal.negative then ['-'] else []) ++ (literal.whole ++
      (fractionChars literal.fraction ++ exponentChars literal.exponent)) := by
  obtain ⟨negative, whole, fraction, exponent⟩ := literal
  cases exponent <;> simp [NumberLiteral.chars, fractionChars, exponentChars]

section

variable {fraction rest : List Char} {exponent : Option (Bool × List Char)}

theorem exponent?_exponentChars
    (areDigits : ∀ given ∈ exponent, given.2 ≠ [] ∧ ∀ c ∈ given.2, c.isDigit = true)
    (ends : EndsNumber rest) :
    exponent? (exponentChars exponent ++ rest) = some (exponent, rest) := by
  cases exponent with
  | none =>
      rw [exponentChars, List.nil_append]
      unfold exponent?
      split
      · exact absurd rfl (ends 'e' rfl).2.2.1
      · exact absurd rfl (ends 'E' rfl).2.2.2
      · rfl
  | some given =>
      obtain ⟨negative, digits⟩ := given
      obtain ⟨someDigits, areDigits⟩ := areDigits _ rfl
      have split := spanDigits_of_endsDigits areDigits ends.endsDigits
      cases negative <;> simp [exponentChars, exponent?, exponentDigits?, split, someDigits]

theorem fractionDigits?_of_ne {text : List Char} (notPoint : ∀ c ∈ text.head?, c ≠ '.') :
    fractionDigits? text = some ([], text) := by
  unfold fractionDigits?
  split
  · exact absurd rfl (notPoint '.' rfl)
  · rfl

variable (fraction exponent)

/-- What follows the fraction neither goes on with it nor starts one. -/
theorem head_exponentChars (ends : EndsNumber rest) :
    ∀ c ∈ (exponentChars exponent ++ rest).head?, c.isDigit = false ∧ c ≠ '.' := by
  intro c isHead
  cases exponent with
  | none => exact ⟨(ends c isHead).1, (ends c isHead).2.1⟩
  | some given =>
      cases isHead
      decide

theorem endsDigits_fractionChars (ends : EndsNumber rest) :
    EndsDigits (fractionChars fraction ++ (exponentChars exponent ++ rest)) := by
  intro c isHead
  cases fraction with
  | nil => exact (head_exponentChars exponent ends c isHead).1
  | cons digit digits =>
      cases isHead
      decide

variable {fraction}

theorem fractionDigits?_fractionChars (areDigits : ∀ c ∈ fraction, c.isDigit = true)
    (ends : EndsNumber rest) :
    fractionDigits? (fractionChars fraction ++ (exponentChars exponent ++ rest)) =
      some (fraction, exponentChars exponent ++ rest) := by
  have head := head_exponentChars exponent ends
  cases fraction with
  | nil => exact fractionDigits?_of_ne fun c isHead => (head c isHead).2
  | cons digit digits =>
      have split := spanDigits_of_endsDigits areDigits fun c isHead => (head c isHead).1
      rw [List.cons_append] at split
      simp [fractionChars, fractionDigits?, split]

end

theorem number?_chars {literal : NumberLiteral} (isWritten : literal.IsWritten)
    {rest : List Char} (ends : EndsNumber rest) :
    number? (literal.chars ++ rest) = some (literal, rest) := by
  rw [chars_eq]
  obtain ⟨negative, whole, fraction, exponent⟩ := literal
  obtain ⟨areWhole, wholeStart, areFraction, areExponent⟩ := isWritten
  have wholeRead := wholeDigits?_of_endsDigits areWhole wholeStart
    (endsDigits_fractionChars fraction exponent ends)
  have fractionRead := fractionDigits?_fractionChars exponent areFraction ends
  have exponentRead := exponent?_exponentChars areExponent ends
  cases negative with
  | true => simp [number?, wholeRead, fractionRead, exponentRead]
  | false =>
      cases whole with
      | nil => simp at wholeStart
      | cons digit digits =>
          have isDigit : digit.isDigit = true := areWhole digit List.mem_cons_self
          have notSign : digit ≠ '-' := by
            rintro rfl
            cases isDigit
          rw [List.cons_append] at wholeRead
          simp [number?, notSign, wholeRead, fractionRead, exponentRead]

theorem token?_digit {digit : Char} (isDigit : digit.isDigit = true) (rest : List Char) :
    token? digit rest =
      (number? (digit :: rest)).map fun (literal, rest) => (.number literal, rest) := by
  unfold token?
  split
  case h_11 => rfl
  all_goals cases isDigit

theorem isBlank_digit {digit : Char} (isDigit : digit.isDigit = true) : isBlank digit = false := by
  simp only [isBlank, Bool.or_eq_false_iff, decide_eq_false_iff_not]
  refine ⟨⟨⟨?_, ?_⟩, ?_⟩, ?_⟩ <;> rintro rfl <;> cases isDigit

theorem token?_number {literal : NumberLiteral} (isWritten : literal.IsWritten)
    {rest : List Char} (ends : EndsNumber rest) : ∃ first chars, literal.chars = first :: chars ∧
      isBlank first = false ∧ token? first (chars ++ rest) = some (.number literal, rest) := by
  have read := number?_chars isWritten ends
  rw [chars_eq] at read ⊢
  obtain ⟨negative, whole, fraction, exponent⟩ := literal
  cases negative with
  | true =>
      refine ⟨'-', _, rfl, rfl, ?_⟩
      exact congrArg (Option.map fun (literal, rest) => (Token.number literal, rest)) read
  | false =>
      cases whole with
      | nil => simpa using isWritten.whole_start
      | cons digit digits =>
          have isDigit : digit.isDigit = true := isWritten.whole_digits digit List.mem_cons_self
          refine ⟨digit, _, rfl, isBlank_digit isDigit, ?_⟩
          rw [token?_digit isDigit]
          exact congrArg (Option.map fun (literal, rest) => (Token.number literal, rest)) read

/-! ## Tokens -/

namespace Document

/-- All numbers of the document are as the format writes them. -/
inductive IsWritten : Document → Prop
  | null : IsWritten .null
  | bool (value : Bool) : IsWritten (.bool value)
  | string (text : Option String) : IsWritten (.string text)
  | number {literal : NumberLiteral} (isWritten : literal.IsWritten) : IsWritten (.number literal)
  | array {items : List Document} (each : ∀ item ∈ items, IsWritten item) : IsWritten (.array items)
  | object {fields : List (Option String × Document)} (each : ∀ field ∈ fields, IsWritten field.2) :
      IsWritten (.object fields)

mutual

/-- The tokens of a document. -/
def tokens : Document → List Token
  | .null => [.null]
  | .bool value => [.bool value]
  | .number literal => [.number literal]
  | .string text => [.string text]
  | .array items => .openArray :: itemTokens items ++ [.closeArray]
  | .object fields => .openObject :: fieldTokens fields ++ [.closeObject]

/-- The tokens of the items of an array. -/
def itemTokens : List Document → List Token
  | [] => []
  | item :: [] => tokens item
  | item :: next :: rest => tokens item ++ .comma :: itemTokens (next :: rest)

/-- The tokens of the fields of an object. -/
def fieldTokens : List (Option String × Document) → List Token
  | [] => []
  | (key, value) :: [] => .string key :: .colon :: tokens value
  | (key, value) :: next :: rest =>
      .string key :: .colon :: tokens value ++ .comma :: fieldTokens (next :: rest)

end

end Document

/-- A text has these tokens. -/
def ReadsTo (chars : List Char) (tokens : List Token) : Prop :=
  ∀ bound, chars.length ≤ bound → tokensWithin bound chars = some tokens

section

variable {rest : List Char} {tokens : List Token}

theorem readsTo_nil : ReadsTo [] [] := fun bound _ => by cases bound <;> rfl

theorem ReadsTo.token (later : ReadsTo rest tokens) (first : Char) (chars : List Char)
    (token : Token) (notBlank : isBlank first = false)
    (read : token? first (chars ++ rest) = some (token, rest)) :
    ReadsTo (first :: (chars ++ rest)) (token :: tokens) := by
  intro bound isLong
  cases bound with
  | zero => cases isLong
  | succ bound =>
      have isLong : rest.length ≤ bound := by
        simp only [List.length_cons, List.length_append] at isLong
        omega
      simp [tokensWithin, notBlank, read, later bound isLong]

theorem ReadsTo.string (later : ReadsTo rest tokens) (text : Option String) :
    ReadsTo (stringChars text ++ rest) (.string text :: tokens) := by
  obtain ⟨chars, charsEq, read⟩ := token?_string text rest
  rw [charsEq]
  exact later.token '"' chars _ rfl read

theorem ReadsTo.key (later : ReadsTo rest tokens) (key : Option String) :
    ReadsTo (stringChars key ++ ':' :: rest) (.string key :: .colon :: tokens) :=
  (later.token ':' [] .colon rfl rfl).string key

theorem endsNumber_nil : EndsNumber [] := fun _ isHead => by cases isHead

theorem endsNumber_cons {mark : Char}
    (isMark : mark.isDigit = false ∧ mark ≠ '.' ∧ mark ≠ 'e' ∧ mark ≠ 'E') :
    EndsNumber (mark :: rest) := by
  rintro c ⟨⟩
  exact isMark

end

mutual

theorem readsTo_document : (document : Document) → document.IsWritten →
    ∀ {rest : List Char} {tokens : List Token}, EndsNumber rest → ReadsTo rest tokens →
      ReadsTo (document.chars ++ rest) (document.tokens ++ tokens)
  | .null, _, _, _, _, later => later.token 'n' ['u', 'l', 'l'] .null rfl rfl
  | .bool true, _, _, _, _, later => later.token 't' ['r', 'u', 'e'] (.bool true) rfl rfl
  | .bool false, _, _, _, _, later => later.token 'f' ['a', 'l', 's', 'e'] (.bool false) rfl rfl
  | .number literal, .number isWritten, rest, tokens, ends, later => by
      obtain ⟨first, chars, charsEq, notBlank, read⟩ := token?_number isWritten ends
      rw [Document.chars, charsEq]
      exact later.token first chars _ notBlank read
  | .string text, _, _, _, _, later => later.string text
  | .array items, .array each, rest, tokens, _, later => by
      have closed := later.token ']' [] .closeArray rfl rfl
      have read := readsTo_items items each (endsNumber_cons (by decide)) closed
      have opened := read.token '[' [] .openArray rfl rfl
      simpa [Document.chars, Document.tokens] using opened
  | .object fields, .object each, rest, tokens, _, later => by
      have closed := later.token '\x7d' [] .closeObject rfl rfl
      have read := readsTo_fields fields each (endsNumber_cons (by decide)) closed
      have opened := read.token '\x7b' [] .openObject rfl rfl
      simpa [Document.chars, Document.tokens] using opened

theorem readsTo_items : (items : List Document) → (∀ item ∈ items, item.IsWritten) →
    ∀ {rest : List Char} {tokens : List Token}, EndsNumber rest → ReadsTo rest tokens →
      ReadsTo (Document.itemChars items ++ rest) (Document.itemTokens items ++ tokens)
  | [], _, _, _, _, later => later
  | item :: [], each, _, _, ends, later =>
      readsTo_document item (each item List.mem_cons_self) ends later
  | item :: next :: others, each, rest, tokens, ends, later => by
      obtain ⟨isWritten, each⟩ := List.forall_mem_cons.mp each
      have read := (readsTo_items (next :: others) each ends later).token ',' [] .comma rfl rfl
      have read := readsTo_document item isWritten (endsNumber_cons (by decide)) read
      simpa [Document.itemChars, Document.itemTokens] using read

theorem readsTo_fields : (fields : List (Option String × Document)) →
    (∀ field ∈ fields, field.2.IsWritten) →
    ∀ {rest : List Char} {tokens : List Token}, EndsNumber rest → ReadsTo rest tokens →
      ReadsTo (Document.fieldChars fields ++ rest) (Document.fieldTokens fields ++ tokens)
  | [], _, _, _, _, later => later
  | (key, value) :: [], each, rest, tokens, ends, later => by
      have read := readsTo_document value (each _ List.mem_cons_self) ends later
      simpa [Document.fieldChars, Document.fieldTokens] using read.key key
  | (key, value) :: next :: others, each, rest, tokens, ends, later => by
      obtain ⟨isWritten, each⟩ := List.forall_mem_cons.mp each
      have read := (readsTo_fields (next :: others) each ends later).token ',' [] .comma rfl rfl
      have read := readsTo_document value isWritten (endsNumber_cons (by decide)) read
      simpa [Document.fieldChars, Document.fieldTokens] using read.key key

end

/-- The text of a document has its tokens. -/
theorem tokens?_text {document : Document} (isWritten : document.IsWritten) :
    tokens? document.text = some document.tokens := by
  have read := readsTo_document document isWritten endsNumber_nil readsTo_nil
  rw [List.append_nil, List.append_nil] at read
  unfold tokens? Document.text
  rw [String.toList_ofList]
  exact read _ (Nat.le_refl _)

/-! ## Documents -/

/-- Reading takes the tokens and goes from the first state to the second. -/
def Goes (source : ReadState) (tokens : List Token) (target : ReadState) : Prop :=
  tokens.foldlM ReadState.step source = some target

theorem Goes.cons {source middle target : ReadState} {token : Token} {tokens : List Token}
    (first : source.step token = some middle) (later : Goes middle tokens target) :
    Goes source (token :: tokens) target := by
  unfold Goes
  rw [List.foldlM_cons, first]
  exact later

theorem goes_single {source target : ReadState} {token : Token}
    (first : source.step token = some target) : Goes source [token] target :=
  Goes.cons first rfl

theorem Goes.append {source middle target : ReadState} {first second : List Token}
    (early : Goes source first middle) (late : Goes middle second target) :
    Goes source (first ++ second) target := by
  unfold Goes at early ⊢
  rw [List.foldlM_append, early]
  exact late

/-- A value is expected inside the containers. -/
def Awaits (state : ReadState) (outer : List OpenContainer) : Prop :=
  ∀ {token : Token} {next : ReadState}, ReadState.beginValue outer token = some next →
    state.step token = some next

/-- A key is expected behind the fields of an object inside the containers. -/
def AwaitsKey (state : ReadState) (before : List (Option String × Document))
    (outer : List OpenContainer) : Prop :=
  ∀ key, state.step (.string key) = some (.expectColon before key outer)

theorem awaits_expectValue (outer : List OpenContainer) : Awaits (.expectValue outer) outer := id

theorem awaits_arrayStart (outer : List OpenContainer) :
    Awaits (.arrayStart outer) (.array [] :: outer) := by
  intro token next begins
  cases token with
  | closeArray => cases begins
  | _ => exact begins

theorem awaitsKey_objectStart (outer : List OpenContainer) :
    AwaitsKey (.objectStart outer) [] outer := fun _ => rfl

theorem awaitsKey_expectKey (before : List (Option String × Document))
    (outer : List OpenContainer) : AwaitsKey (.expectKey before outer) before outer := fun _ => rfl

mutual

theorem goes_document : (document : Document) → ∀ {state : ReadState} {outer : List OpenContainer},
    Awaits state outer → Goes state document.tokens (.complete document outer)
  | .null, _, _, awaits | .bool _, _, _, awaits | .number _, _, _, awaits
  | .string _, _, _, awaits => goes_single (awaits rfl)
  | .array [], _, _, awaits => Goes.cons (awaits rfl) (goes_single rfl)
  | .array (item :: items), _, outer, awaits =>
      Goes.cons (awaits rfl)
        (goes_items (item :: items) (List.cons_ne_nil _ _) (awaits_arrayStart outer))
  | .object [], _, _, awaits => Goes.cons (awaits rfl) (goes_single rfl)
  | .object (field :: fields), _, outer, awaits =>
      Goes.cons (awaits rfl)
        (goes_fields (field :: fields) (List.cons_ne_nil _ _) (awaitsKey_objectStart outer))

/-- The items of an array are added to those before them. -/
theorem goes_items : (items : List Document) → items ≠ [] →
    ∀ {state : ReadState} {before : List Document} {outer : List OpenContainer},
    Awaits state (.array before :: outer) →
      Goes state (Document.itemTokens items ++ [.closeArray])
        (.complete (.array (before.reverse ++ items)) outer)
  | [], someItems, _, _, _, _ => absurd rfl someItems
  | item :: [], _, _, before, outer, awaits => by
      have first := goes_document item awaits
      rw [← List.reverse_cons]
      exact first.append (goes_single rfl)
  | item :: next :: items, _, _, before, outer, awaits => by
      have first := goes_document item awaits
      have later := goes_items (next :: items) (List.cons_ne_nil _ _)
        (awaits_expectValue (.array (item :: before) :: outer))
      rw [List.reverse_cons, List.append_assoc] at later
      rw [Document.itemTokens, List.append_assoc]
      exact first.append (Goes.cons rfl later)

/-- The fields of an object are added to those before them. -/
theorem goes_fields : (fields : List (Option String × Document)) → fields ≠ [] →
    ∀ {state : ReadState} {before : List (Option String × Document)} {outer : List OpenContainer},
    AwaitsKey state before outer →
      Goes state (Document.fieldTokens fields ++ [.closeObject])
        (.complete (.object (before.reverse ++ fields)) outer)
  | [], someFields, _, _, _, _ => absurd rfl someFields
  | (key, value) :: [], _, _, before, outer, awaits => by
      have first := goes_document value (awaits_expectValue (.object before key :: outer))
      rw [← List.reverse_cons]
      exact Goes.cons (awaits key) (Goes.cons rfl (first.append (goes_single rfl)))
  | (key, value) :: next :: fields, _, _, before, outer, awaits => by
      have first := goes_document value (awaits_expectValue (.object before key :: outer))
      have later := goes_fields (next :: fields) (List.cons_ne_nil _ _)
        (awaitsKey_expectKey ((key, value) :: before) outer)
      rw [List.reverse_cons, List.append_assoc] at later
      rw [Document.fieldTokens, List.append_assoc]
      exact Goes.cons (awaits key) (Goes.cons rfl (first.append (Goes.cons rfl later)))

end

/-- The tokens of a document are read as the document. -/
theorem ofTokens?_tokens (document : Document) :
    Document.ofTokens? document.tokens = some document := by
  have goes := goes_document document (awaits_expectValue [])
  unfold Document.ofTokens?
  rw [goes]
  rfl

/-- A printed document is read back. -/
theorem ofText?_text {document : Document} (isWritten : document.IsWritten) :
    Document.ofText? document.text = some document := by
  unfold Document.ofText?
  rw [tokens?_text isWritten]
  exact ofTokens?_tokens document

end ClassCompiler.Json
