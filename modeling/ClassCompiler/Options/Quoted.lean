import ClassCompiler.Text.Hex

/-!
# Strings in a configuration

A string stands in double quotes, where a backslash begins an escape, or in single
quotes, where every character stands for itself. Three quotes of either kind
delimit a string over several lines: a line break right after them is dropped, and
up to two quotes may stand directly before the closing ones. A line break is a
line feed, with or without a carriage return before it, and reads as a line feed.
-/

namespace ClassCompiler.Options

/-- Characters that may stand in a line: tabs, and all that are not control
characters. -/
def isLineChar (c : Char) : Bool := c = '\t' || (32 ≤ c.toNat && c.toNat ≠ 127)

/-- Spaces and tabs. -/
def isBlank (c : Char) : Bool := c = ' ' || c = '\t'

/-- What follows a line break at the start of a text. -/
def afterBreak? : List Char → Option (List Char)
  | '\n' :: rest => some rest
  | '\r' :: '\n' :: rest => some rest
  | _ => none

/-- The character that a one-letter escape names. -/
def escapedChar? : Char → Option Char
  | 'b' => some '\x08'
  | 't' => some '\t'
  | 'n' => some '\n'
  | 'f' => some '\x0c'
  | 'r' => some '\r'
  | '"' => some '"'
  | '\\' => some '\\'
  | _ => none

/-- Put a character in front of the text that has been read. -/
def withChar? (c : Option Char) (text : Option (List Char × List Char)) :
    Option (List Char × List Char) := do
  let c ← c
  let (chars, rest) ← text
  return (c :: chars, rest)

/-- Read a string in double quotes up to the closing quote, and give what
follows. -/
def basicString? : List Char → Option (List Char × List Char)
  | [] => none
  | '"' :: rest => some ([], rest)
  | '\\' :: 'u' :: a :: b :: c :: d :: rest =>
      withChar? (Text.charOfHex? [a, b, c, d]) (basicString? rest)
  | '\\' :: 'U' :: a :: b :: c :: d :: e :: f :: g :: h :: rest =>
      withChar? (Text.charOfHex? [a, b, c, d, e, f, g, h]) (basicString? rest)
  | '\\' :: letter :: rest => withChar? (escapedChar? letter) (basicString? rest)
  | c :: rest =>
      withChar? (if c ≠ '\\' ∧ isLineChar c then some c else none) (basicString? rest)

/-- Read a string in single quotes up to the closing quote, and give what
follows. -/
def literalString? : List Char → Option (List Char × List Char)
  | [] => none
  | '\'' :: rest => some ([], rest)
  | c :: rest => withChar? (if isLineChar c then some c else none) (literalString? rest)

/-- Read a string over several lines up to three double quotes, and give what
follows. A backslash at the end of a line drops the line break and all blanks and
line breaks after it; the first argument tells whether they are being dropped. -/
def basicLines? : Bool → List Char → Option (List Char × List Char)
  | _, [] => none
  | true, ' ' :: rest => basicLines? true rest
  | true, '\t' :: rest => basicLines? true rest
  | true, '\n' :: rest => basicLines? true rest
  | true, '\r' :: '\n' :: rest => basicLines? true rest
  | _, '"' :: '"' :: '"' :: '"' :: '"' :: rest => some (['"', '"'], rest)
  | _, '"' :: '"' :: '"' :: '"' :: rest => some (['"'], rest)
  | _, '"' :: '"' :: '"' :: rest => some ([], rest)
  | _, '\\' :: 'u' :: a :: b :: c :: d :: rest =>
      withChar? (Text.charOfHex? [a, b, c, d]) (basicLines? false rest)
  | _, '\\' :: 'U' :: a :: b :: c :: d :: e :: f :: g :: h :: rest =>
      withChar? (Text.charOfHex? [a, b, c, d, e, f, g, h]) (basicLines? false rest)
  | _, '\\' :: c :: rest =>
      if (afterBreak? ((c :: rest).dropWhile isBlank)).isSome then basicLines? true (c :: rest)
      else withChar? (escapedChar? c) (basicLines? false rest)
  | _, '\r' :: '\n' :: rest => withChar? (some '\n') (basicLines? false rest)
  | _, c :: rest =>
      withChar? (if c = '\n' ∨ (c ≠ '\\' ∧ isLineChar c) then some c else none)
        (basicLines? false rest)

/-- Read a string over several lines up to three single quotes, and give what
follows. -/
def literalLines? : List Char → Option (List Char × List Char)
  | [] => none
  | '\'' :: '\'' :: '\'' :: '\'' :: '\'' :: rest => some (['\'', '\''], rest)
  | '\'' :: '\'' :: '\'' :: '\'' :: rest => some (['\''], rest)
  | '\'' :: '\'' :: '\'' :: rest => some ([], rest)
  | '\r' :: '\n' :: rest => withChar? (some '\n') (literalLines? rest)
  | c :: rest =>
      withChar? (if c = '\n' ∨ isLineChar c then some c else none) (literalLines? rest)

/-- Drop a line break at the start. -/
def dropBreak (cs : List Char) : List Char := (afterBreak? cs).getD cs

/-- Read a string from its opening quotes on, and give what follows. -/
def string? : List Char → Option (List Char × List Char)
  | '"' :: '"' :: '"' :: rest => basicLines? false (dropBreak rest)
  | '\'' :: '\'' :: '\'' :: rest => literalLines? (dropBreak rest)
  | '"' :: rest => basicString? rest
  | '\'' :: rest => literalString? rest
  | _ => none

end ClassCompiler.Options
