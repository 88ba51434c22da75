import ClassCompiler.Import
import ClassCompiler.Program
import ClassCompiler.ThreeAddress.Instr

/-!
# Methods and classes in three-address code

A method holds its variables in three groups, parameters, locals and
temporaries, and its body as one sequence of instructions. It keeps a record of
the positions of labels, which grows as instructions are appended, so where a body
defines a label more than once, the last definition is the one that counts.
-/

namespace ClassCompiler.ThreeAddress

/-- Recorded positions of labels, the latest first. No label has two entries. -/
abbrev LabelMap := List (String × Nat)

/-- Record the position of a label. A label that is recorded already gets the new
position. -/
def LabelMap.insert (labels : LabelMap) (name : String) (position : Nat) : LabelMap :=
  (name, position) :: labels.filter fun entry => entry.1 != name

/-- The record after an instruction has been appended at a position. -/
def Instr.record (labels : LabelMap) (position : Nat) : Instr → LabelMap
  | .label name => labels.insert name position
  | _ => labels

/-- The record after instructions have been appended one by one, from a position on. -/
def Code.record : LabelMap → Nat → Code → LabelMap
  | labels, _, [] => labels
  | labels, position, instr :: rest =>
      Code.record (instr.record labels position) (position + 1) rest

/-- A method with its variables, its body, and the record of its labels. -/
structure Method where
  name : String
  returnTy : Ty
  isPublic : Bool := true
  isStatic : Bool := false
  isConstructor : Bool := false
  params : List Symbol := []
  locals : List Symbol := []
  temps : List Symbol := []
  body : Code := []
  labels : LabelMap := []
deriving DecidableEq, Repr, Inhabited

namespace Method

/-- The constructor without parameters of a class. -/
def constructor (className : String) : Method where
  name := className
  returnTy := Ty.void
  isConstructor := true

/-- The entry point is the static method called `main`. -/
def isMain (method : Method) : Bool := method.name == "main" && method.isStatic

/-- The method with one more instruction at its end. -/
def push (method : Method) (instr : Instr) : Method :=
  { method with
    body := method.body ++ [instr]
    labels := instr.record method.labels method.body.length }

/-- The method with more instructions at its end. -/
def extend (method : Method) (code : Code) : Method :=
  { method with
    body := method.body ++ code
    labels := Code.record method.labels method.body.length code }

/-- The position that is recorded for a label. -/
def labelIndex? (method : Method) (label : String) : Option Nat := method.labels.lookup label

/-- How many labels are recorded. -/
def labelCount (method : Method) : Nat := method.labels.length

/-- Whether the last instruction leaves the method. -/
def endsWithReturn (method : Method) : Bool :=
  match method.body.getLast? with
  | some instr => instr.isReturn
  | none => false

/-- All variables in the order in which they take their places in the frame:
parameters, locals, temporaries. -/
def allVariables (method : Method) : List Symbol :=
  method.params ++ method.locals ++ method.temps

@[simp] theorem body_push (method : Method) (instr : Instr) :
    (method.push instr).body = method.body ++ [instr] := rfl

@[simp] theorem body_extend (method : Method) (code : Code) :
    (method.extend code).body = method.body ++ code := rfl

/-- Instructions are appended one by one. -/
theorem extend_cons (method : Method) (instr : Instr) (rest : Code) :
    method.extend (instr :: rest) = (method.push instr).extend rest := by
  simp [extend, push, Code.record]

end Method

/-- A class with its fields and methods. -/
structure ClassUnit where
  name : String
  superClass : Option String := none
  imports : List String := []
  fields : List Symbol := []
  methods : List Method := []
deriving DecidableEq, Repr, Inhabited

namespace ClassUnit

/-- The simple name and path of every import, in import order. -/
def importTable (unit : ClassUnit) : List (String × String) :=
  unit.imports.map fun qualified => (Import.simpleName qualified, Import.path qualified)

/-- The first method of a name. -/
def method? (unit : ClassUnit) (name : String) : Option Method :=
  unit.methods.find? fun method => method.name == name

end ClassUnit

end ClassCompiler.ThreeAddress
