import ClassCompiler.Ty

/-!
# Binary operators

Operators fall into three groups that the later stages treat apart: integer
arithmetic has one machine instruction each, comparisons become branches, and
the logical conjunction evaluates both operands.
-/

namespace ClassCompiler

/-- Integer arithmetic. -/
inductive ArithOp where
  | add
  | sub
  | mul
  | div
deriving DecidableEq, Repr, Inhabited

/-- Comparisons of two integers. -/
inductive Comparison where
  | less
  | lessEqual
  | greater
  | greaterEqual
  | equal
  | notEqual
deriving DecidableEq, Repr, Inhabited

/-- The binary operators of the source language. -/
inductive BinaryOp where
  | arith (op : ArithOp)
  | compare (op : Comparison)
  | and
deriving DecidableEq, Repr, Inhabited

/-- The sign of an arithmetic operation. -/
def ArithOp.symbol : ArithOp → String
  | .add => "+"
  | .sub => "-"
  | .mul => "*"
  | .div => "/"

/-- The sign of a comparison. -/
def Comparison.symbol : Comparison → String
  | .less => "<"
  | .lessEqual => "<="
  | .greater => ">"
  | .greaterEqual => ">="
  | .equal => "=="
  | .notEqual => "!="

/-- The name of an arithmetic operation in the description of an expression. -/
def ArithOp.name : ArithOp → String
  | .add => "Add"
  | .sub => "Sub"
  | .mul => "Mul"
  | .div => "Div"

/-- The name of a comparison in the description of an expression. -/
def Comparison.name : Comparison → String
  | .less => "Less"
  | .lessEqual => "LessEqual"
  | .greater => "Greater"
  | .greaterEqual => "GreaterEqual"
  | .equal => "Equal"
  | .notEqual => "NotEqual"

namespace BinaryOp

/-- Every operator once. -/
def all : List BinaryOp :=
  [.arith .add, .arith .sub, .arith .mul, .arith .div,
    .compare .less, .compare .lessEqual, .compare .greater, .compare .greaterEqual,
    .compare .equal, .compare .notEqual, .and]

/-- The sign of an operator in source text and in listings. -/
def symbol : BinaryOp → String
  | .arith op => op.symbol
  | .compare op => op.symbol
  | .and => "&&"

/-- The name of an operator in the description of an expression. -/
def name : BinaryOp → String
  | .arith op => op.name
  | .compare op => op.name
  | .and => "And"

/-- The operator with the given sign. -/
def ofSymbol? (symbol : String) : Option BinaryOp :=
  all.find? fun op => op.symbol == symbol

/-- Whether the result is an integer. -/
def isArithmetic : BinaryOp → Bool
  | .arith _ => true
  | _ => false

/-- Whether the operator compares its operands. -/
def isRelational : BinaryOp → Bool
  | .compare _ => true
  | _ => false

/-- The type of the result. -/
def resultTy : BinaryOp → Ty
  | .arith _ => Ty.int
  | _ => Ty.boolean

/-- The type both operands are expected to have. -/
def operandTy : BinaryOp → Ty
  | .and => Ty.boolean
  | _ => Ty.int

/-- Every operator is read back from its sign. -/
@[simp] theorem ofSymbol?_symbol (op : BinaryOp) : ofSymbol? op.symbol = some op := by
  rcases op with op | op | _
  · cases op <;> decide
  · cases op <;> decide
  · decide

end BinaryOp

end ClassCompiler
