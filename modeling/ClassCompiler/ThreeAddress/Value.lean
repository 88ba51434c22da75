import ClassCompiler.Ty

/-!
# Operands of three-address code

Every operand carries its type. Code obtained from a program uses temporaries,
declared variables, constants and the current object as operands; an array
element stands only as the source or destination of an assignment, and a class
name only as the target of a call. Code built by hand may nest operands freely.
-/

namespace ClassCompiler.ThreeAddress

/-- A constant operand. -/
inductive Constant where
  | int (value : Int32)
  | bool (value : Bool)
  | string (value : String)
deriving DecidableEq, Repr, Inhabited

/-- The type of a constant. -/
def Constant.ty : Constant → Ty
  | .int _ => Ty.int
  | .bool _ => Ty.boolean
  | .string _ => Ty.string

/-- An operand: a temporary, a declared variable, a constant, the current object,
a class name, or an element of an array. -/
inductive Value where
  | temp (name : String) (ty : Ty)
  | var (name : String) (ty : Ty)
  | const (value : Constant)
  | self (ty : Ty)
  | classRef (name : String)
  | element (array position : Value) (ty : Ty)
deriving DecidableEq, Repr, Inhabited

namespace Value

/-- An integer constant. -/
def int (value : Int32) : Value := .const (.int value)

/-- A truth value. -/
def bool (value : Bool) : Value := .const (.bool value)

/-- A string constant. -/
def string (value : String) : Value := .const (.string value)

/-- The type of an operand; a class name has the type of its objects. -/
def ty : Value → Ty
  | .temp _ ty => ty
  | .var _ ty => ty
  | .const value => value.ty
  | .self ty => ty
  | .classRef name => Ty.named name
  | .element _ _ ty => ty

/-- The name of a temporary or declared variable. -/
def varName? : Value → Option String
  | .temp name _ => some name
  | .var name _ => some name
  | _ => none

/-- The number an integer constant stands for. -/
def asInt? : Value → Option Int32
  | .const (.int value) => some value
  | _ => none

end Value

end ClassCompiler.ThreeAddress
