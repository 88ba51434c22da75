import ClassCompiler.Operator

/-!
# Values and memory

What programs compute with, whether they are read as source, as three-address
code or as stack code. A value is a scalar or a reference. How scalars are held
is left open by `Arithmetic`: `Scalar` keeps integers and truth values apart, and
a `Word` holds both in 32 bits, as the stack machine does.

The heap holds objects and arrays. Its places are sorted by the type they were
made for, so an array of integers never holds anything else. Every invocation of
a method is answered by the `World`, which sees all calls made so far and may
change the heap as it likes.
-/

namespace ClassCompiler.Semantics

/-- Why a run ends without returning. A mismatch is an operation on values of the
wrong sort. -/
inductive Abort where
  | divisionByZero
  | badIndex
  | negativeSize
  | nullReference
  | callee
  | noTarget
  | mismatch
deriving DecidableEq, Repr, Inhabited

/-! ## Scalars -/

/-- Integer arithmetic wraps at 32 bits and rounds quotients towards zero. -/
def evalArith : ArithOp → Int32 → Int32 → Except Abort Int32
  | .add, left, right => .ok (left + right)
  | .sub, left, right => .ok (left - right)
  | .mul, left, right => .ok (left * right)
  | .div, left, right => if right = 0 then .error .divisionByZero else .ok (left / right)

/-- Whether a comparison holds between two integers. -/
def holds : Comparison → Int → Int → Bool
  | .less, left, right => left < right
  | .lessEqual, left, right => left ≤ right
  | .greater, left, right => right < left
  | .greaterEqual, left, right => right ≤ left
  | .equal, left, right => left = right
  | .notEqual, left, right => left ≠ right

/-- How integers and truth values are held, and how operators act on them: the
scalar of an integer and of a truth value, the integer a scalar stands for, what a
branch makes of it, and the truth value that a place for one keeps of it. -/
class Arithmetic (S : Type) where
  int : Int32 → S
  bool : Bool → S
  int? : S → Option Int32
  test? : S → Option Bool
  bit? : S → Option Bool
  binary : BinaryOp → S → S → Except Abort S
  not : S → Except Abort S

/-- Scalars that know whether they are integers or truth values. -/
inductive Scalar where
  | int (value : Int32)
  | bool (value : Bool)
deriving DecidableEq, Repr, Inhabited

/-- Operators on scalars. Truth values can be compared for equality only. -/
def Scalar.binary : BinaryOp → Scalar → Scalar → Except Abort Scalar
  | .arith op, .int left, .int right => (evalArith op left right).map .int
  | .compare op, .int left, .int right => .ok (.bool (holds op left.toInt right.toInt))
  | .compare .equal, .bool left, .bool right => .ok (.bool (left == right))
  | .compare .notEqual, .bool left, .bool right => .ok (.bool (left != right))
  | .and, .bool left, .bool right => .ok (.bool (left && right))
  | _, _, _ => .error .mismatch

instance : Arithmetic Scalar where
  int := .int
  bool := .bool
  int?
    | .int value => some value
    | .bool _ => none
  test?
    | .int _ => none
    | .bool value => some value
  bit?
    | .int _ => none
    | .bool value => some value
  binary := Scalar.binary
  not
    | .int _ => .error .mismatch
    | .bool value => .ok (.bool !value)

/-- Scalars of the stack machine. -/
abbrev Word := Int32

/-- The word of a truth value. -/
def Word.ofBool (value : Bool) : Word := if value then 1 else 0

/-- Words are compared by the sign of their difference, which wraps. A branch is
taken on every word but zero, and a place for a truth value keeps the lowest
bit. -/
instance : Arithmetic Word where
  int := id
  bool := Word.ofBool
  int? := some
  test? word := some (word ≠ 0)
  bit? word := some (word &&& 1 ≠ 0)
  binary
    | .arith op, left, right => evalArith op left right
    | .compare op, left, right => .ok (Word.ofBool (holds op (left - right).toInt 0))
    | .and, left, right => .ok (left &&& right)
  not word := .ok (word ^^^ 1)

/-! ## Values -/

/-- A reference: none, a string constant, or a place on the heap. -/
inductive Ref where
  | null
  | string (text : String)
  | address (index : Nat)
deriving DecidableEq, Repr, Inhabited

/-- A scalar or a reference. -/
inductive Val (S : Type) where
  | scalar (value : S)
  | ref (value : Ref)
deriving DecidableEq, Repr, Inhabited

/-- What one place of the heap holds. -/
inductive Datum where
  | int (value : Int32)
  | bool (value : Bool)
  | ref (value : Ref)
deriving DecidableEq, Repr, Inhabited

/-- The sorts of places. -/
inductive Storage where
  | int
  | bool
  | ref
deriving DecidableEq, Repr, Inhabited

/-- The sort of place that holds the values of a type. -/
def storageOf (ty : Ty) : Storage :=
  if ty = Ty.int then .int else if ty = Ty.boolean then .bool else .ref

/-- What a place holds before anything is put there. -/
def Datum.initial : Storage → Datum
  | .int => .int 0
  | .bool => .bool false
  | .ref => .ref .null

/-- The sort of place that can hold a datum. -/
def Datum.storage : Datum → Storage
  | .int _ => .int
  | .bool _ => .bool
  | .ref _ => .ref

namespace Val

variable {S : Type}

/-- Whether a value is a scalar. -/
def isScalar : Val S → Bool
  | .scalar _ => true
  | .ref _ => false

variable [Arithmetic S]

/-- The value of a datum. -/
def ofDatum : Datum → Val S
  | .int value => .scalar (Arithmetic.int value)
  | .bool value => .scalar (Arithmetic.bool value)
  | .ref value => .ref value

/-- What a place keeps of a value. -/
def toDatum : Storage → Val S → Except Abort Datum
  | .int, .scalar value => ((Arithmetic.int? value).map Datum.int).elim (.error .mismatch) .ok
  | .bool, .scalar value => ((Arithmetic.bit? value).map Datum.bool).elim (.error .mismatch) .ok
  | .ref, .ref value => .ok (.ref value)
  | _, _ => .error .mismatch

/-- The integer that is used as an index or a size. -/
def toInt : Val S → Except Abort Int32
  | .scalar value => (Arithmetic.int? value).elim (.error .mismatch) .ok
  | .ref _ => .error .mismatch

/-- The truth value on which a condition depends. -/
def test : Val S → Except Abort Bool
  | .scalar value => (Arithmetic.test? value).elim (.error .mismatch) .ok
  | .ref _ => .error .mismatch

/-- Apply an operator. -/
def binary (op : BinaryOp) : Val S → Val S → Except Abort (Val S)
  | .scalar left, .scalar right => (Arithmetic.binary op left right).map .scalar
  | _, _ => .error .mismatch

/-- Negate a truth value. -/
def not : Val S → Except Abort (Val S)
  | .scalar value => (Arithmetic.not value).map .scalar
  | .ref _ => .error .mismatch

end Val

/-! ## The heap -/

/-- A field is known by the class through which it is reached and by its name. -/
structure FieldKey where
  owner : String
  name : String
deriving DecidableEq, Repr, Inhabited

/-- What an address stands for: an object or an array. -/
inductive Cell where
  | object (path : String) (fields : List (FieldKey × Datum))
  | ints (elements : List Int32)
  | bools (elements : List Bool)
  | refs (path : String) (elements : List Ref)
deriving DecidableEq, Repr, Inhabited

namespace Cell

/-- A new array: every place holds its initial datum. -/
def newArray (path : String) (size : Nat) : Storage → Cell
  | .int => .ints (List.replicate size 0)
  | .bool => .bools (List.replicate size false)
  | .ref => .refs path (List.replicate size .null)

/-- The number of elements. -/
def length : Cell → Except Abort Nat
  | .object _ _ => .error .mismatch
  | .ints elements => .ok elements.length
  | .bools elements => .ok elements.length
  | .refs _ elements => .ok elements.length

/-- The element at an index. -/
def element : Cell → Storage → Nat → Except Abort Datum
  | .ints elements, .int, index => (elements[index]?.map Datum.int).elim (.error .badIndex) .ok
  | .bools elements, .bool, index =>
      (elements[index]?.map Datum.bool).elim (.error .badIndex) .ok
  | .refs _ elements, .ref, index =>
      (elements[index]?.map Datum.ref).elim (.error .badIndex) .ok
  | _, _, _ => .error .mismatch

/-- The array with another element at an index. -/
def setElement : Cell → Nat → Datum → Except Abort Cell
  | .ints elements, index, .int value =>
      if index < elements.length then .ok (.ints (elements.set index value))
      else .error .badIndex
  | .bools elements, index, .bool value =>
      if index < elements.length then .ok (.bools (elements.set index value))
      else .error .badIndex
  | .refs path elements, index, .ref value =>
      if index < elements.length then .ok (.refs path (elements.set index value))
      else .error .badIndex
  | _, _, _ => .error .mismatch

/-- A field of an object. A field to which nothing was assigned holds its initial
datum. -/
def field : Cell → FieldKey → Storage → Except Abort Datum
  | .object _ fields, key, storage =>
      let datum := (fields.lookup key).getD (Datum.initial storage)
      if datum.storage = storage then .ok datum else .error .mismatch
  | _, _, _ => .error .mismatch

/-- The object with another datum in a field. -/
def setField : Cell → FieldKey → Datum → Except Abort Cell
  | .object path fields, key, datum => .ok (.object path ((key, datum) :: fields))
  | _, _, _ => .error .mismatch

end Cell

/-- The cells in the order of their addresses. -/
abbrev Heap := List Cell

namespace Heap

/-- The address and the cell of a reference. -/
def cellAt (heap : Heap) : Ref → Except Abort (Nat × Cell)
  | .null => .error .nullReference
  | .string _ => .error .mismatch
  | .address index => (heap[index]?.map fun cell => (index, cell)).elim (.error .mismatch) .ok

/-- The length of an array. -/
def arrayLength (heap : Heap) (array : Ref) : Except Abort Int32 := do
  let (_, cell) ← heap.cellAt array
  return Int32.ofNat (← cell.length)

/-- An index as a position in an array. -/
def position (index : Int32) : Except Abort Nat :=
  if index < 0 then .error .badIndex else .ok index.toNatClampNeg

/-- An element of an array. -/
def element (heap : Heap) (storage : Storage) (array : Ref) (index : Int32) :
    Except Abort Datum := do
  let (_, cell) ← heap.cellAt array
  cell.element storage (← position index)

/-- The heap with another element in an array. -/
def setElement (heap : Heap) (array : Ref) (index : Int32) (datum : Datum) :
    Except Abort Heap := do
  let (address, cell) ← heap.cellAt array
  return heap.set address (← cell.setElement (← position index) datum)

/-- A field of an object. -/
def field (heap : Heap) (object : Ref) (key : FieldKey) (storage : Storage) :
    Except Abort Datum := do
  let (_, cell) ← heap.cellAt object
  cell.field key storage

/-- The heap with another datum in a field. -/
def setField (heap : Heap) (object : Ref) (key : FieldKey) (datum : Datum) :
    Except Abort Heap := do
  let (address, cell) ← heap.cellAt object
  return heap.set address (← cell.setField key datum)

end Heap

end ClassCompiler.Semantics
