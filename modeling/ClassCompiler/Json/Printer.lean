import ClassCompiler.Json.Document

/-!
# Printing JSON documents

Documents are printed without blanks. In strings, quotes, backslashes and control
characters are escaped and every other character stands for itself. The sign of an
exponent is always written.
-/

namespace ClassCompiler.Json

/-- A number as it is written. -/
def NumberLiteral.chars (literal : NumberLiteral) : List Char :=
  let sign := if literal.negative then ['-'] else []
  let fraction := if literal.fraction.isEmpty then [] else '.' :: literal.fraction
  let exponent := match literal.exponent with
    | none => []
    | some (negative, digits) => 'e' :: (if negative then '-' else '+') :: digits
  sign ++ literal.whole ++ fraction ++ exponent

/-- A character inside a string. -/
def stringChar (c : Char) : List Char :=
  match c with
  | '"' => ['\\', '"']
  | '\\' => ['\\', '\\']
  | '\x08' => ['\\', 'b']
  | '\x0c' => ['\\', 'f']
  | '\n' => ['\\', 'n']
  | '\r' => ['\\', 'r']
  | '\t' => ['\\', 't']
  | _ =>
      if c.toNat < 32 then
        ['\\', 'u', '0', '0', Nat.digitChar (c.toNat / 16), Nat.digitChar (c.toNat % 16)]
      else [c]

/-- A string in quotes. A string without text is written as an unpaired
surrogate. -/
def stringChars : Option String → List Char
  | some text => '"' :: text.toList.flatMap stringChar ++ ['"']
  | none => ['"', '\\', 'u', 'd', '8', '0', '0', '"']

namespace Document

mutual

/-- The characters of a document. -/
def chars : Document → List Char
  | .null => ['n', 'u', 'l', 'l']
  | .bool true => ['t', 'r', 'u', 'e']
  | .bool false => ['f', 'a', 'l', 's', 'e']
  | .number literal => literal.chars
  | .string text => stringChars text
  | .array items => '[' :: itemChars items ++ [']']
  | .object fields => '\x7b' :: fieldChars fields ++ ['\x7d']

/-- The characters of the items of an array, with commas between them. -/
def itemChars : List Document → List Char
  | [] => []
  | item :: [] => chars item
  | item :: next :: rest => chars item ++ ',' :: itemChars (next :: rest)

/-- The characters of the fields of an object, with commas between them. -/
def fieldChars : List (Option String × Document) → List Char
  | [] => []
  | (key, value) :: [] => stringChars key ++ ':' :: chars value
  | (key, value) :: next :: rest =>
      stringChars key ++ ':' :: chars value ++ ',' :: fieldChars (next :: rest)

end

/-- The text of a document. -/
def text (document : Document) : String := String.ofList document.chars

end Document

end ClassCompiler.Json
