import ClassCompiler.Decimal.Digits
import ClassCompiler.Text.Hex

/-!
# Tokens of JSON text

A token is a punctuation mark, a word, a number as it is written, or a string.
Blanks separate tokens and mean nothing else. A string whose escapes name half of
a surrogate pair alone denotes no text: it is still a token, and whoever needs its
text refuses it.
-/

namespace ClassCompiler.Json

/-- A number as written: sign, digits before the point, digits after it, and the
sign and digits of the exponent. Without a point there are no digits after it. -/
structure NumberLiteral where
  negative : Bool
  whole : List Char
  fraction : List Char
  exponent : Option (Bool × List Char)
deriving DecidableEq, Repr, Inhabited

/-- A token; a string without text is one that has an unpaired surrogate. -/
inductive Token where
  | openArray
  | closeArray
  | openObject
  | closeObject
  | comma
  | colon
  | null
  | bool (value : Bool)
  | number (literal : NumberLiteral)
  | string (text : Option String)
deriving DecidableEq, Repr, Inhabited

/-! ## Strings -/

/-- A part of a string: a character as it stands, or a sixteen-bit unit that an
escape names. -/
inductive Piece where
  | char (c : Char)
  | unit (value : Nat)
deriving DecidableEq, Repr, Inhabited

/-- The character that a one-letter escape names. -/
def escapedChar? : Char → Option Char
  | '"' => some '"'
  | '\\' => some '\\'
  | '/' => some '/'
  | 'b' => some '\x08'
  | 'f' => some '\x0c'
  | 'n' => some '\n'
  | 'r' => some '\r'
  | 't' => some '\t'
  | _ => none

/-- Read the parts of a string up to its closing quote, and give what follows. A
control character must be escaped. -/
def stringPieces? : List Char → Option (List Piece × List Char)
  | [] => none
  | '"' :: rest => some ([], rest)
  | '\\' :: 'u' :: a :: b :: c :: d :: rest => do
      let unit ← Text.ofHex? [a, b, c, d]
      let (pieces, rest) ← stringPieces? rest
      return (.unit unit :: pieces, rest)
  | '\\' :: letter :: rest => do
      let c ← escapedChar? letter
      let (pieces, rest) ← stringPieces? rest
      return (.char c :: pieces, rest)
  | c :: rest =>
      if c = '\\' ∨ c.toNat < 32 then none
      else do
        let (pieces, rest) ← stringPieces? rest
        return (.char c :: pieces, rest)

/-- A unit that begins a surrogate pair. -/
def isHighSurrogate (unit : Nat) : Bool := 0xD800 ≤ unit && unit < 0xDC00

/-- A unit that ends a surrogate pair. -/
def isLowSurrogate (unit : Nat) : Bool := 0xDC00 ≤ unit && unit < 0xE000

/-- The code point of a surrogate pair. -/
def surrogatePair (high low : Nat) : Nat := 0x10000 + (high - 0xD800) * 0x400 + (low - 0xDC00)

/-- The characters of the parts of a string. Two escapes in a row may name one
character by a surrogate pair; any other surrogate names none. -/
def pieceChars? : List Piece → Option (List Char)
  | [] => some []
  | .char c :: rest => (pieceChars? rest).map (c :: ·)
  | .unit high :: .unit low :: rest =>
      if isHighSurrogate high && isLowSurrogate low then
        (pieceChars? rest).map (Char.ofNat (surrogatePair high low) :: ·)
      else if isHighSurrogate high || isLowSurrogate high then none
      else (pieceChars? (.unit low :: rest)).map (Char.ofNat high :: ·)
  | .unit unit :: rest =>
      if isHighSurrogate unit || isLowSurrogate unit then none
      else (pieceChars? rest).map (Char.ofNat unit :: ·)

/-! ## Numbers -/

/-- The digits before the point: a lone zero, or digits that start with none. -/
def wholeDigits? (cs : List Char) : Option (List Char × List Char) :=
  match cs with
  | '0' :: rest => some (['0'], rest)
  | _ =>
      let (digits, rest) := Decimal.spanDigits cs
      if digits.isEmpty then none else some (digits, rest)

/-- A point and at least one digit, or nothing. -/
def fractionDigits? (cs : List Char) : Option (List Char × List Char) :=
  match cs with
  | '.' :: rest =>
      let (digits, rest) := Decimal.spanDigits rest
      if digits.isEmpty then none else some (digits, rest)
  | _ => some ([], cs)

/-- The sign and digits after an exponent mark. -/
def exponentDigits? (cs : List Char) : Option ((Bool × List Char) × List Char) :=
  let (negative, unsigned) := match cs with
    | '-' :: rest => (true, rest)
    | '+' :: rest => (false, rest)
    | _ => (false, cs)
  let (digits, rest) := Decimal.spanDigits unsigned
  if digits.isEmpty then none else some ((negative, digits), rest)

/-- An exponent, or nothing. -/
def exponent? (cs : List Char) : Option (Option (Bool × List Char) × List Char) :=
  match cs with
  | 'e' :: rest => (exponentDigits? rest).map fun (exponent, rest) => (some exponent, rest)
  | 'E' :: rest => (exponentDigits? rest).map fun (exponent, rest) => (some exponent, rest)
  | _ => some (none, cs)

/-- Read a number from its sign on. -/
def number? (cs : List Char) : Option (NumberLiteral × List Char) := do
  let (negative, rest) := match cs with
    | '-' :: rest => (true, rest)
    | _ => (false, cs)
  let (whole, rest) ← wholeDigits? rest
  let (fraction, rest) ← fractionDigits? rest
  let (exponent, rest) ← exponent? rest
  return (⟨negative, whole, fraction, exponent⟩, rest)

/-! ## Tokens -/

/-- The characters that separate tokens. -/
def isBlank (c : Char) : Bool := c = ' ' || c = '\n' || c = '\t' || c = '\r'

/-- Read the token that starts with a given character, and give what follows. -/
def token? (first : Char) (rest : List Char) : Option (Token × List Char) :=
  match first, rest with
  | '[', _ => some (.openArray, rest)
  | ']', _ => some (.closeArray, rest)
  | '\x7b', _ => some (.openObject, rest)
  | '\x7d', _ => some (.closeObject, rest)
  | ',', _ => some (.comma, rest)
  | ':', _ => some (.colon, rest)
  | 'n', 'u' :: 'l' :: 'l' :: rest => some (.null, rest)
  | 't', 'r' :: 'u' :: 'e' :: rest => some (.bool true, rest)
  | 'f', 'a' :: 'l' :: 's' :: 'e' :: rest => some (.bool false, rest)
  | '"', _ => (stringPieces? rest).map fun (pieces, rest) =>
      (.string ((pieceChars? pieces).map String.ofList), rest)
  | _, _ => (number? (first :: rest)).map fun (literal, rest) => (.number literal, rest)

/-- The tokens of a text, in order. Text outside every token is refused. The
first argument bounds the number of characters. -/
def tokensWithin : Nat → List Char → Option (List Token)
  | _, [] => some []
  | 0, _ :: _ => none
  | bound + 1, c :: rest =>
      if isBlank c then tokensWithin bound rest
      else do
        let (token, rest) ← token? c rest
        let tokens ← tokensWithin bound rest
        return token :: tokens

/-- The tokens of a text. Every token takes a character, so the length of the
text bounds the work. -/
def tokens? (text : String) : Option (List Token) :=
  tokensWithin text.toList.length text.toList

end ClassCompiler.Json
