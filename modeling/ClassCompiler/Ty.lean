/-!
# Types of the source language

A type is a name together with a shape. The names `int`, `boolean`, `void` and
`String` are built in; every other name stands for a class. An array has one
dimension, and a vararg type is the array type of a last parameter that collects
the trailing arguments of a call, so every vararg type is an array type by
construction.
-/

namespace ClassCompiler

/-- What a type holds: one value, an array, or an array that a call packs from
its trailing arguments. -/
inductive Shape where
  | single
  | array
  | vararg
deriving DecidableEq, Repr, Inhabited

/-- A source type: the name of its elements and its shape. -/
structure Ty where
  name : String
  shape : Shape
deriving DecidableEq, Repr, Inhabited

namespace Ty

/-- The type of single values of a class or of a built-in type. -/
def named (name : String) : Ty := ⟨name, .single⟩

/-- The array type over the named elements. -/
def arrayOf (name : String) : Ty := ⟨name, .array⟩

/-- The type of a last parameter that collects trailing arguments. -/
def varargOf (name : String) : Ty := ⟨name, .vararg⟩

/-- The 32-bit integer type. -/
def int : Ty := named "int"

/-- The truth values. -/
def boolean : Ty := named "boolean"

/-- The result type of a method that returns nothing. -/
def void : Ty := named "void"

/-- The built-in string class. -/
def string : Ty := named "String"

/-- Whether values of the type are arrays; vararg parameters are. -/
def isArray (ty : Ty) : Bool := ty.shape != .single

/-- Whether the type collects trailing arguments. -/
def isVararg (ty : Ty) : Bool := ty.shape == .vararg

/-- The type of the elements of an array type, and a single type itself. -/
def element (ty : Ty) : Ty := named ty.name

/-- Whether the name is built in. The shape plays no part. -/
def isPrimitive (ty : Ty) : Bool :=
  ty.name == "int" || ty.name == "boolean" || ty.name == "void" || ty.name == "String"

/-- Whether the type is exactly `void`, not an array of it. -/
def isVoid (ty : Ty) : Bool := ty == void

/-- Whether the type is exactly `int`. -/
def isInt (ty : Ty) : Bool := ty == int

/-- Whether the type is exactly `boolean`. -/
def isBoolean (ty : Ty) : Bool := ty == boolean

/-- Whether values of the type are held as integers on the operand stack. -/
def isIntLike (ty : Ty) : Bool := ty.isInt || ty.isBoolean

/-- The type as the source writes it: `int`, `int[]` or `int...`. -/
def text (ty : Ty) : String :=
  match ty.shape with
  | .single => ty.name
  | .array => ty.name ++ "[]"
  | .vararg => ty.name ++ "..."

/-- The mark of a single type in a listing; a class is marked by its own name. -/
def baseSuffix (name : String) : String :=
  if name = "int" then "i32"
  else if name = "boolean" then "bool"
  else if name = "void" then "V"
  else if name = "String" then "string"
  else name

/-- The mark a listing puts after a value of the type. Arrays and varargs share
the `array.` mark. -/
def suffix (ty : Ty) : String :=
  if ty.isArray then "array." ++ baseSuffix ty.name else baseSuffix ty.name

@[simp] theorem element_name (ty : Ty) : ty.element.name = ty.name := rfl

/-- A vararg type is an array type. -/
theorem isArray_of_isVararg {ty : Ty} (vararg : ty.isVararg = true) : ty.isArray = true := by
  rcases ty with ⟨name, shape⟩
  cases shape <;> simp_all [isVararg, isArray]

end Ty

end ClassCompiler
