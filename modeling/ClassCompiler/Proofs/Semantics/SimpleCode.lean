import ClassCompiler.ThreeAddress.Method

/-!
# Simple code

Three-address code is simple if every operand is a temporary or a declared variable of
its method, a constant, or the current object. Elements of arrays are only moved, into
a temporary or out of an operand, and class names stand only as the targets of static
calls and of allocations.
-/

namespace ClassCompiler.ThreeAddress

/-- The declared variable of a name: a local, or else a parameter. -/
def Method.declared? (method : Method) (name : String) : Option Symbol :=
  (method.locals ++ method.params).find? fun symbol => symbol.name == name

/-- The places of a method: its temporaries and declared variables, with their types. -/
def Value.IsPlace (method : Method) : Value → Prop
  | .temp name ty => ⟨name, ty⟩ ∈ method.temps
  | .var name ty => method.declared? name = some ⟨name, ty⟩
  | .const _ | .self _ | .classRef _ | .element _ _ _ => False

/-- The simple operands of a method: its places, constants, and the current object. -/
def Value.IsSimple (classTy : Ty) (method : Method) : Value → Prop
  | .const _ => True
  | .self ty => ty = classTy
  | value => value.IsPlace method

section

variable (classTy : Ty) (method : Method)

/-- Calls with simple operands. -/
inductive Call.IsSimple : Call → Prop where
  | static {args : List Value} (className name : String) (returnTy : Ty)
      (hasArgs : ∀ arg ∈ args, arg.IsSimple classTy method) :
      IsSimple (.invoke .static (.classRef className) name args returnTy)
  | onReceiver {mode : InvokeMode} {receiver : Value} {args : List Value} (name : String)
      (returnTy : Ty) (hasReceiver : mode ≠ .static)
      (isReceiver : receiver.IsSimple classTy method)
      (hasArgs : ∀ arg ∈ args, arg.IsSimple classTy method) :
      IsSimple (.invoke mode receiver name args returnTy)
  | newObject (className : String) : IsSimple (.newObject className)
  | newArray {size : Value} (elem : Ty) (isSize : size.IsSimple classTy method) :
      IsSimple (.newArray elem size)
  | arrayLength {array : Value} (isArray : array.IsSimple classTy method) :
      IsSimple (.arrayLength array)

/-- Instructions with simple operands. Only invocations go without a destination. -/
inductive Instr.IsSimple : Instr → Prop where
  | assign {dest value : Value} (isDest : dest.IsPlace method)
      (isValue : value.IsSimple classTy method) : IsSimple (.assign dest value)
  | readElement {name : String} {array position : Value} {ty elem : Ty}
      (isDest : (Value.temp name ty).IsPlace method) (isArray : array.IsSimple classTy method)
      (isPosition : position.IsSimple classTy method) :
      IsSimple (.assign (.temp name ty) (.element array position elem))
  | writeElement {array position value : Value} {elem : Ty}
      (isArray : array.IsSimple classTy method) (isPosition : position.IsSimple classTy method)
      (isValue : value.IsSimple classTy method) :
      IsSimple (.assign (.element array position elem) value)
  | binary {dest left right : Value} (op : BinaryOp) (isDest : dest.IsPlace method)
      (isLeft : left.IsSimple classTy method) (isRight : right.IsSimple classTy method) :
      IsSimple (.binary dest op left right)
  | not {dest operand : Value} (isDest : dest.IsPlace method)
      (isOperand : operand.IsSimple classTy method) : IsSimple (.not dest operand)
  | getField {dest object : Value} (field : String) (ty : Ty) (isDest : dest.IsPlace method)
      (isObject : object.IsSimple classTy method) : IsSimple (.getField dest object field ty)
  | putField {object value : Value} (field : String) (isObject : object.IsSimple classTy method)
      (isValue : value.IsSimple classTy method) : IsSimple (.putField object field value)
  | call {dest : Value} {site : Call} (isDest : dest.IsPlace method)
      (isSite : site.IsSimple classTy method) : IsSimple (.call (some dest) site)
  | droppedCall {site : Call} {mode : InvokeMode} (invokes : site.invocation = .invoke mode)
      (isSite : site.IsSimple classTy method) : IsSimple (.call none site)
  | returnNothing : IsSimple (.ret none)
  | returnValue {value : Value} (isValue : value.IsSimple classTy method) :
      IsSimple (.ret (some value))
  | branch {cond : Value} (target : String) (isCond : cond.IsSimple classTy method) :
      IsSimple (.branch cond target)
  | goto (target : String) : IsSimple (.goto target)
  | label (name : String) : IsSimple (.label name)

end

/-- Methods whose body is simple. -/
def Method.IsSimple (classTy : Ty) (method : Method) : Prop :=
  ∀ instr ∈ method.body, instr.IsSimple classTy method

end ClassCompiler.ThreeAddress
