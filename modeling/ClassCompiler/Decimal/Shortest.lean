/-!
# Shortest decimals of floats

The shortest decimal of a float has the fewest digits of all decimals that round
to the float, and of those it is the nearest. All arithmetic is exact: a float is
`mantissa * 2 ^ exponent`, and the reals that round to it form an interval that
reaches half-way to its neighbours. The ends belong to it if the mantissa is even.
-/

namespace ClassCompiler.Decimal

/-- A positive float as a whole mantissa and a binary exponent. Below a power of
two the neighbour is at half the distance. -/
structure BinaryFloat where
  mantissa : Nat
  exponent : Int
  nearBelow : Bool
deriving DecidableEq, Repr, Inhabited

/-- The magnitude of a finite float with given bits. -/
def BinaryFloat.ofBits (bits : UInt64) : BinaryFloat :=
  let fraction : Nat := bits.toNat % (1 <<< 52)
  let field : Nat := (bits.toNat >>> 52) % (1 <<< 11)
  if field = 0 then ⟨fraction, -1074, false⟩
  else ⟨(1 <<< 52) + fraction, (field : Int) - 1075, fraction = 0 && 1 < field⟩

/-- The sign of a float with given bits. -/
def isNegative (bits : UInt64) : Bool := bits.toNat >>> 63 = 1

/-- Digits without leading or trailing zeros, and the power of ten of the last. -/
structure Shortest where
  digits : Nat
  exponent : Int
deriving DecidableEq, Repr, Inhabited

/-- The powers that scale a number by `base ^ exponent`: a factor above and one
below. -/
def scaleFactors (base : Nat) (exponent : Int) : Nat × Nat :=
  match exponent with
  | .ofNat n => (Nat.pow base n, 1)
  | .negSucc n => (1, Nat.pow base (n + 1))

/-- A float and the ends of its interval over one denominator, where ten to a
power is the unit. -/
structure Interval where
  low : Nat
  value : Nat
  high : Nat
  unit : Nat
  closed : Bool

namespace Interval

/-- The interval of a float, measured in units of ten to a power. -/
def ofFloat (float : BinaryFloat) (place : Int) : Interval :=
  let (up, down) := scaleFactors 2 float.exponent
  let (unitUp, unitDown) := scaleFactors 10 place
  let scale := up * unitDown
  { low := (4 * float.mantissa - (if float.nearBelow then 1 else 2)) * scale
    value := 4 * float.mantissa * scale
    high := (4 * float.mantissa + 2) * scale
    unit := 4 * down * unitUp
    closed := float.mantissa % 2 = 0 }

/-- Whether a whole number of units rounds to the float. -/
def contains (interval : Interval) (count : Nat) : Bool :=
  let point := count * interval.unit
  if interval.closed then interval.low ≤ point && point ≤ interval.high
  else interval.low < point && point < interval.high

/-- The whole number of units nearest to the float, if it rounds to the float.
Only the two neighbours of the float can be nearest; of two at the same distance
the even one is taken. -/
def nearest? (interval : Interval) : Option Nat :=
  let below := interval.value / interval.unit
  let above := below + 1
  let toBelow := interval.value - below * interval.unit
  let toAbove := above * interval.unit - interval.value
  match interval.contains below, interval.contains above with
  | true, true =>
      if toBelow < toAbove ∨ (toBelow = toAbove ∧ below % 2 = 0) then some below
      else some above
  | true, false => some below
  | false, true => some above
  | false, false => none

end Interval

/-- Drop trailing zeros. The first argument bounds their number. -/
def dropZeros : Nat → Shortest → Shortest
  | 0, decimal => decimal
  | bound + 1, decimal =>
      if decimal.digits % 10 = 0 then dropZeros bound ⟨decimal.digits / 10, decimal.exponent + 1⟩
      else decimal

/-- The least power of ten above a positive float, found from a power that is not
above it by going up. The first argument bounds the search. -/
def topPlace (float : BinaryFloat) : Nat → Int → Int
  | 0, place => place
  | bound + 1, place =>
      let interval := Interval.ofFloat float place
      if interval.value < interval.unit then place else topPlace float bound (place + 1)

/-- A power of ten that is not above a positive float, within a few places. -/
def placeBelow (float : BinaryFloat) : Int :=
  (float.exponent + (Nat.log2 float.mantissa : Int)) * 30103 / 100000 - 1

/-- The shortest decimal of a positive float: of the grids with one digit, two
digits and so on, the first that has a point which rounds to the float. Seventeen
digits always do. -/
def shortest (float : BinaryFloat) : Shortest :=
  let top := topPlace float 6 (placeBelow float)
  let attempts := (List.range 17).findSome? fun count : Nat =>
    let place := top - (count + 1)
    (Interval.ofFloat float place).nearest?.map fun digits => Shortest.mk digits place
  match attempts with
  | some decimal => dropZeros 17 decimal
  | none => ⟨0, 0⟩

/-- A decimal as it is written: the digits before the point, those after it, and
the sign and digits of an exponent. -/
structure Written where
  whole : List Char
  fraction : List Char
  exponent : Option (Bool × List Char)
deriving DecidableEq, Repr, Inhabited

/-- How a decimal is written. From `0.00001` up to sixteen digits before the point
it is written out with a digit on either side of the point, otherwise with one
digit before the point and an exponent. -/
def Shortest.written (decimal : Shortest) : Written :=
  let digits := Nat.toDigits 10 decimal.digits
  let point : Int := digits.length + decimal.exponent
  if 0 ≤ decimal.exponent ∧ point ≤ 16 then
    ⟨digits ++ List.replicate decimal.exponent.toNat '0', ['0'], none⟩
  else if 0 < point ∧ point ≤ 16 then
    ⟨digits.take point.toNat, digits.drop point.toNat, none⟩
  else if -5 < point ∧ point ≤ 0 then
    ⟨['0'], List.replicate (-point).toNat '0' ++ digits, none⟩
  else
    ⟨digits.take 1, digits.drop 1, some (point ≤ 0, Nat.toDigits 10 (point - 1).natAbs)⟩

/-- How the magnitude of a finite float with given bits is written. -/
def writtenOfBits (bits : UInt64) : Written :=
  let float := BinaryFloat.ofBits bits
  if float.mantissa = 0 then ⟨['0'], ['0'], none⟩ else (shortest float).written

end ClassCompiler.Decimal
