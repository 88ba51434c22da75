import ClassCompiler.Decimal.Shortest
import ClassCompiler.Json.Token

/-!
# JSON numbers

A number without point and exponent that fits into 64 bits is a whole number; any
other number is a 64-bit float. The digits of a float are first read into a
64-bit significand. Further digits before the point raise the exponent, further
digits after the point are dropped, and the significand is scaled once by a power
of ten, or several times where the number is very small. A float is written with
the fewest digits that denote it.
-/

namespace ClassCompiler.Json

/-- A number: a whole number, or the bits of a 64-bit float. -/
inductive Number where
  | int (value : Int)
  | float (bits : UInt64)
deriving DecidableEq, Repr, Inhabited

/-- A decimal significand and its exponent. -/
structure Scaled where
  significand : Nat
  exponent : Int
deriving DecidableEq, Repr, Inhabited

namespace Scaled

/-- Whether another digit fits into a 64-bit significand. -/
def fits (significand : Nat) (digit : Char) : Bool :=
  significand * 10 + Decimal.digitValue digit < UInt64.size

/-- Read the digits before the point. Those that do not fit raise the exponent. -/
def ofWhole (significand : Nat) : List Char → Scaled
  | [] => ⟨significand, 0⟩
  | digit :: rest =>
      if fits significand digit then ofWhole (significand * 10 + Decimal.digitValue digit) rest
      else ⟨significand, (digit :: rest).length⟩

/-- Read the digits after the point. Those that do not fit are dropped. -/
def addFraction (scaled : Scaled) : List Char → Scaled
  | [] => scaled
  | digit :: rest =>
      if fits scaled.significand digit then
        addFraction ⟨scaled.significand * 10 + Decimal.digitValue digit, scaled.exponent - 1⟩ rest
      else scaled

/-- The float nearest to ten to a power. -/
def powerOfTen (exponent : Nat) : Float := Float.ofScientific 1 false exponent

/-- Divide by ten to a power, at most 308 places at a time. The first argument
bounds the number of divisions. -/
def divideBy : Nat → Float → Nat → Float
  | 0, value, _ => value
  | bound + 1, value, places =>
      if places ≤ 308 then value / powerOfTen places
      else if value == 0 then value
      else divideBy bound (value / powerOfTen 308) (places - 308)

/-- The float of a scaled significand; `none` if it is too large. -/
def toFloat? (scaled : Scaled) : Option Float :=
  let value := scaled.significand.toUInt64.toFloat
  match scaled.exponent with
  | .ofNat places =>
      if places ≤ 308 then
        let product := value * powerOfTen places
        if product.isInf then none else some product
      else if scaled.significand = 0 then some value
      else none
  | .negSucc before => some (divideBy (before + 1) value (before + 1))

end Scaled

namespace NumberLiteral

/-- The exponent as a number. -/
def exponentValue (literal : NumberLiteral) : Int :=
  match literal.exponent with
  | none => 0
  | some (true, digits) => -(Decimal.natOf digits : Int)
  | some (false, digits) => Decimal.natOf digits

/-- The magnitude of a number as a float. An exponent of more than 31 bits makes
a small number zero, and is out of range otherwise. -/
def magnitude? (literal : NumberLiteral) : Option Float :=
  let digits := (Scaled.ofWhole 0 literal.whole).addFraction literal.fraction
  let exponent := literal.exponentValue
  if Int32.minValue.toInt < exponent ∧ exponent ≤ Int32.maxValue.toInt then
    Scaled.toFloat? ⟨digits.significand, digits.exponent + exponent⟩
  else if digits.significand = 0 ∨ exponent < 0 then some 0
  else none

/-- The float of a number; `none` if it is out of range. -/
def float? (literal : NumberLiteral) : Option Number := do
  let magnitude ← literal.magnitude?
  return .float (if literal.negative then -magnitude else magnitude).toBits

/-- Whether a number has neither point nor exponent. -/
def isWhole (literal : NumberLiteral) : Bool :=
  literal.fraction.isEmpty && literal.exponent.isNone

/-- The value of a number; `none` if it is out of range. Negative zero is a
float. -/
def value? (literal : NumberLiteral) : Option Number :=
  let whole := Decimal.natOf literal.whole
  if literal.isWhole && !literal.negative && whole < UInt64.size then some (.int whole)
  else if literal.isWhole && literal.negative && 0 < whole &&
      Int64.minValue.toInt ≤ -(whole : Int) then
    some (.int (-(whole : Int)))
  else literal.float?

end NumberLiteral

/-- How a number is written. -/
def Number.literal : Number → NumberLiteral
  | .int value => ⟨value < 0, Nat.toDigits 10 value.natAbs, [], none⟩
  | .float bits =>
      let written := Decimal.writtenOfBits bits
      ⟨Decimal.isNegative bits, written.whole, written.fraction, written.exponent⟩

end ClassCompiler.Json
