/-!
# Decimal digits

Runs of the characters `0` to `9` and the numbers they denote.
-/

namespace ClassCompiler.Decimal

/-- The value of a digit character. -/
def digitValue (c : Char) : Nat := c.toNat - '0'.toNat

/-- The number that a run of digits denotes after a number already read. -/
def natFrom (start : Nat) (digits : List Char) : Nat :=
  digits.foldl (fun value c => 10 * value + digitValue c) start

/-- The number that a run of digits denotes. -/
def natOf (digits : List Char) : Nat := natFrom 0 digits

/-- Split off the longest run of digits. -/
def spanDigits (cs : List Char) : List Char × List Char :=
  (cs.takeWhile Char.isDigit, cs.dropWhile Char.isDigit)

/-- A run of at least one digit that is the whole text. -/
def natOfText? (cs : List Char) : Option Nat :=
  if cs.isEmpty || !cs.all Char.isDigit then none else some (natOf cs)

/-- Read a whole number: one sign at most, then digits. -/
def intOfText? (cs : List Char) : Option Int :=
  match cs with
  | '-' :: digits => (natOfText? digits).map fun n => -(n : Int)
  | '+' :: digits => (natOfText? digits).map Int.ofNat
  | digits => (natOfText? digits).map Int.ofNat

/-- Read a whole number of 32 bits; a number out of range is refused. -/
def int32OfText? (text : String) : Option Int32 :=
  match intOfText? text.toList with
  | some n =>
      if Int32.minValue.toInt ≤ n ∧ n ≤ Int32.maxValue.toInt then some (Int32.ofInt n) else none
  | none => none

end ClassCompiler.Decimal
