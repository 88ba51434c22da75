import ClassCompiler.Operator
import ClassCompiler.StackCode.Descriptor
import ClassCompiler.Text.Quoted
import ClassCompiler.ThreeAddress.Instr

/-!
# Instructions of the stack machine

Instructions work on an operand stack and on numbered slots. Integers and truth
values are of the integer category, all other values are references. The
written form of a constant or of a slot access is the shortest one there is.
-/

namespace ClassCompiler.StackCode

/-- What a slot or a place of the operand stack holds. -/
inductive Category where
  | int
  | ref
deriving DecidableEq, Repr, Inhabited

/-- The elements an array instruction moves. Truth values have array instructions
of their own. -/
inductive ElementKind where
  | int
  | boolean
  | ref
deriving DecidableEq, Repr, Inhabited

/-- The elements of a new array. -/
inductive ArrayElement where
  | int
  | boolean
  | object (path : String)
deriving DecidableEq, Repr, Inhabited

/-- An instruction of the stack machine. A branch compares the integer on top of
the stack with zero. -/
inductive Instr where
  | pushInt (value : Int32)
  | pushString (value : String)
  | load (category : Category) (slot : Nat)
  | store (category : Category) (slot : Nat)
  | increment (slot : Nat) (delta : Int8)
  | arith (op : ArithOp)
  | and
  | xor
  | goto (target : String)
  | branch (test : Comparison) (target : String)
  | new (path : String)
  | newArray (element : ArrayElement)
  | arrayLength
  | arrayLoad (kind : ElementKind)
  | arrayStore (kind : ElementKind)
  | getField (owner field : String) (descriptor : Descriptor)
  | putField (owner field : String) (descriptor : Descriptor)
  | invoke (mode : ThreeAddress.InvokeMode) (owner method : String)
      (descriptor : MethodDescriptor)
  | pop
  | ret (category : Option Category)
deriving DecidableEq, Repr, Inhabited

/-- A line of code: an instruction, or a label that jumps can name. -/
inductive Line (ι : Type) where
  | instr (op : ι)
  | label (name : String)
deriving DecidableEq, Repr, Inhabited

/-- The letter that marks a category in an instruction word. -/
def Category.letter : Category → String
  | .int => "i"
  | .ref => "a"

/-- The letter that marks the elements of an array in an instruction word. -/
def ElementKind.letter : ElementKind → String
  | .int => "i"
  | .boolean => "b"
  | .ref => "a"

/-- The instruction that allocates an array. -/
def ArrayElement.text : ArrayElement → String
  | .int => "newarray int"
  | .boolean => "newarray boolean"
  | .object path => "anewarray " ++ path

/-- The instruction word of an arithmetic operation. -/
def arithWord : ArithOp → String
  | .add => "iadd"
  | .sub => "isub"
  | .mul => "imul"
  | .div => "idiv"

/-- The instruction word of a branch. -/
def branchWord : Comparison → String
  | .less => "iflt"
  | .lessEqual => "ifle"
  | .greater => "ifgt"
  | .greaterEqual => "ifge"
  | .equal => "ifeq"
  | .notEqual => "ifne"

/-- The instruction that pushes an integer: one word from `-1` to `5`, then one
byte, two bytes, and a constant of the class. -/
def pushIntText (value : Int) : String :=
  if value = -1 then "iconst_m1"
  else if 0 ≤ value ∧ value ≤ 5 then "iconst_" ++ toString value
  else if -128 ≤ value ∧ value ≤ 127 then "bipush " ++ toString value
  else if -32768 ≤ value ∧ value ≤ 32767 then "sipush " ++ toString value
  else "ldc " ++ toString value

/-- The access to a slot: the first four slots have words of their own. -/
def slotText (word : String) (slot : Nat) : String :=
  if slot ≤ 3 then word ++ "_" ++ toString slot else word ++ " " ++ toString slot

/-- The written form of an instruction. -/
def Instr.text : Instr → String
  | .pushInt value => pushIntText value.toInt
  | .pushString value => "ldc " ++ Text.quoted value
  | .load category slot => slotText (category.letter ++ "load") slot
  | .store category slot => slotText (category.letter ++ "store") slot
  | .increment slot delta => "iinc " ++ toString slot ++ " " ++ toString delta.toInt
  | .arith op => arithWord op
  | .and => "iand"
  | .xor => "ixor"
  | .goto target => "goto " ++ target
  | .branch test target => branchWord test ++ " " ++ target
  | .new path => "new " ++ path
  | .newArray element => element.text
  | .arrayLength => "arraylength"
  | .arrayLoad kind => kind.letter ++ "aload"
  | .arrayStore kind => kind.letter ++ "astore"
  | .getField owner field descriptor =>
      "getfield " ++ owner ++ "/" ++ field ++ " " ++ descriptor.text
  | .putField owner field descriptor =>
      "putfield " ++ owner ++ "/" ++ field ++ " " ++ descriptor.text
  | .invoke mode owner method descriptor =>
      mode.keyword ++ " " ++ owner ++ "/" ++ method ++ descriptor.text
  | .pop => "pop"
  | .ret none => "return"
  | .ret (some category) => category.letter ++ "return"

/-- The written form of a line. Labels are not indented. -/
def Line.text {ι : Type} (indent : String) (instrText : ι → String) : Line ι → String
  | .instr op => indent ++ instrText op
  | .label name => name ++ ":"

end ClassCompiler.StackCode
