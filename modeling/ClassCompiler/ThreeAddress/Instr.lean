import ClassCompiler.Operator
import ClassCompiler.ThreeAddress.Value

/-!
# Instructions of three-address code

An instruction reads operands, writes at most one destination, and control flow
is a matter of labels and jumps.
-/

namespace ClassCompiler.ThreeAddress

/-- How a method is chosen when it is invoked: by its class, by its receiver, or
directly, as constructors are. -/
inductive InvokeMode where
  | static
  | virtual
  | special
deriving DecidableEq, Repr, Inhabited

/-- The instruction word of an invocation. -/
def InvokeMode.keyword : InvokeMode → String
  | .static => "invokestatic"
  | .virtual => "invokevirtual"
  | .special => "invokespecial"

/-- What a call does: invoke a method, allocate an object or an array, or take
the length of an array. -/
inductive Invocation where
  | invoke (mode : InvokeMode)
  | new
  | newArray
  | arrayLength
deriving DecidableEq, Repr, Inhabited

/-- One call. The target is the receiver of an instance call, the class of a
static call or allocation, or the array whose length is taken; the method name
belongs to the invocations. -/
structure Call where
  invocation : Invocation
  target : Option Value
  method : Option String
  args : List Value
  returnTy : Ty
deriving DecidableEq, Repr, Inhabited

namespace Call

/-- The invocation of a method on a target. -/
def invoke (mode : InvokeMode) (target : Value) (method : String) (args : List Value)
    (returnTy : Ty) : Call :=
  ⟨.invoke mode, some target, some method, args, returnTy⟩

/-- The call of a constructor without arguments. -/
def construct (object : Value) : Call := invoke .special object "<init>" [] Ty.void

/-- The allocation of an object. -/
def newObject (className : String) : Call :=
  ⟨.new, some (.classRef className), none, [], Ty.named className⟩

/-- The allocation of an array. -/
def newArray (elem : Ty) (size : Value) : Call :=
  ⟨.newArray, none, none, [size], Ty.arrayOf elem.name⟩

/-- The length of an array. -/
def arrayLength (array : Value) : Call :=
  ⟨.arrayLength, some array, none, [], Ty.int⟩

/-- Whether the call leaves a value. -/
def returnsValue (call : Call) : Bool := !call.returnTy.isVoid

end Call

/-- An instruction. -/
inductive Instr where
  | assign (dest value : Value)
  | binary (dest : Value) (op : BinaryOp) (left right : Value)
  | not (dest operand : Value)
  | getField (dest object : Value) (field : String) (ty : Ty)
  | putField (object : Value) (field : String) (value : Value)
  | call (dest : Option Value) (site : Call)
  | ret (value : Option Value)
  | goto (target : String)
  | branch (cond : Value) (target : String)
  | label (name : String)
deriving DecidableEq, Repr, Inhabited

/-- Whether an instruction leaves the method. -/
def Instr.isReturn : Instr → Bool
  | .ret _ => true
  | _ => false

/-- A sequence of instructions. -/
abbrev Code := List Instr

end ClassCompiler.ThreeAddress
