import ClassCompiler.Text.Hex
import ClassCompiler.Text.Unprintable

/-!
# Quoted text

A text in double quotes on one line: quotes and backslashes get a backslash,
line feed, carriage return, tab and NUL have escapes of one letter, and every
other character that cannot be shown is written by its code point in braces.
-/

namespace ClassCompiler.Text

/-- One character as it stands inside quotes. -/
def escapeChar (c : Char) : String :=
  if c = '"' then "\\\""
  else if c = '\\' then "\\\\"
  else if c = '\n' then "\\n"
  else if c = '\r' then "\\r"
  else if c = '\t' then "\\t"
  else if c.toNat = 0 then "\\0"
  else if isUnprintable c then "\\u\x7b" ++ hex c.toNat ++ "\x7d"
  else String.singleton c

/-- A text in double quotes. -/
def quoted (text : String) : String :=
  "\"" ++ String.join (text.toList.map escapeChar) ++ "\""

end ClassCompiler.Text
