/-!
# Hexadecimal text

Numbers in base sixteen. They are read in either case and written in lower case.
-/

namespace ClassCompiler.Text

/-- A number in hexadecimal, in lower case and without leading zeros. -/
def hex (number : Nat) : String := String.ofList (Nat.toDigits 16 number)

/-- The value of a hexadecimal digit of either case. -/
def hexDigit? (c : Char) : Option Nat :=
  if '0' ≤ c ∧ c ≤ '9' then some (c.toNat - '0'.toNat)
  else if 'a' ≤ c ∧ c ≤ 'f' then some (c.toNat - 'a'.toNat + 10)
  else if 'A' ≤ c ∧ c ≤ 'F' then some (c.toNat - 'A'.toNat + 10)
  else none

/-- The number that a run of hexadecimal digits denotes. -/
def ofHex? (digits : List Char) : Option Nat :=
  digits.foldlM (fun value c => (hexDigit? c).map (16 * value + ·)) 0

/-- The character with the code point that a run of hexadecimal digits denotes. -/
def charOfHex? (digits : List Char) : Option Char :=
  match ofHex? digits with
  | some code => if code.isValidChar then some (Char.ofNat code) else none
  | none => none

end ClassCompiler.Text
