import ClassCompiler.Text.Quoted
import ClassCompiler.ThreeAddress.Method

/-!
# Listings of three-address code

The printed form of values, instructions, methods and classes. A value is
followed by the mark of its type, and every instruction stands on a line of its
own.
-/

namespace ClassCompiler.ThreeAddress

/-- The printed form of a constant. Truth values print as numbers. -/
def Constant.text : Constant → String
  | .int value => toString value.toInt ++ ".i32"
  | .bool value => (if value then "1" else "0") ++ ".bool"
  | .string value => Text.quoted value ++ ".string"

namespace Value

/-- The printed form of a value. The base of an array element prints without its
mark if it is a variable. -/
def text : Value → String
  | .temp name ty => name ++ "." ++ ty.suffix
  | .var name ty => name ++ "." ++ ty.suffix
  | .const value => value.text
  | .self ty => "this." ++ ty.name
  | .classRef name => name
  | .element array position ty =>
      (match array.varName? with
        | some name => name
        | none => array.text) ++ "[" ++ position.text ++ "]." ++ ty.suffix

/-- The printed form of a value that receives a call or holds a field: the current
object prints bare. -/
def receiverText : Value → String
  | .self _ => "this"
  | value => value.text

end Value

/-- The operands of an invocation: its target, the method name in quotation
marks, and the arguments. -/
def Call.operandTexts (call : Call) : List String :=
  let target := match call.target with
    | some target => target.receiverText
    | none => ""
  let method := match call.method with
    | some method => ["\"" ++ method ++ "\""]
    | none => []
  target :: method ++ call.args.map Value.text

/-- The printed form of a call. -/
def Call.text (call : Call) : String :=
  let target := match call.target with
    | some target => target.receiverText
    | none => ""
  match call.invocation with
  | .new => "new(" ++ target ++ ")." ++ call.returnTy.suffix
  | .newArray =>
      "new(array, " ++ String.intercalate ", " (call.args.map Value.text) ++ ")." ++
        call.returnTy.suffix
  | .arrayLength => "arraylength(" ++ target ++ ")." ++ call.returnTy.suffix
  | .invoke mode =>
      mode.keyword ++ "(" ++ String.intercalate ", " call.operandTexts ++ ")." ++
        call.returnTy.suffix

/-- The beginning of an instruction that writes a destination. -/
def Value.assignText (dest : Value) : String := dest.text ++ " :=." ++ dest.ty.suffix ++ " "

/-- The printed form of an instruction. -/
def Instr.text : Instr → String
  | .assign dest value => dest.assignText ++ value.text
  | .binary dest op left right =>
      dest.assignText ++ left.text ++ " " ++ op.symbol ++ "." ++ op.resultTy.suffix ++ " " ++
        right.text
  | .not dest operand => dest.assignText ++ "!." ++ dest.ty.suffix ++ " " ++ operand.text
  | .getField dest object field ty =>
      dest.assignText ++ "getfield(" ++ object.receiverText ++ ", " ++ field ++ "." ++
        ty.suffix ++ ")." ++ ty.suffix
  | .putField object field value =>
      "putfield(" ++ object.receiverText ++ ", " ++ field ++ "." ++ value.ty.suffix ++ ", " ++
        value.text ++ ").V"
  | .call (some dest) site => dest.assignText ++ site.text
  | .call none site => site.text
  | .ret (some value) => "ret." ++ value.ty.suffix ++ " " ++ value.text
  | .ret none => "ret.V"
  | .goto target => "goto " ++ target
  | .branch cond target => "if (" ++ cond.text ++ ") goto " ++ target
  | .label name => name ++ ":"

/-- The line of a listing that shows an instruction. Labels stand further left. -/
def Instr.line : Instr → String
  | .label name => "    " ++ name ++ ":\n"
  | instr => "        " ++ instr.text ++ ";\n"

/-- A declared name with the mark of its type. -/
def symbolText (symbol : Symbol) : String := symbol.name ++ "." ++ symbol.ty.suffix

namespace Method

/-- The line that opens a method. -/
def headText (method : Method) : String :=
  let params := "(" ++ String.intercalate ", " (method.params.map symbolText) ++ ")."
  if method.isConstructor then
    "    .construct " ++ method.name ++ params ++ "V \x7b\n"
  else
    "    .method " ++ (if method.isPublic then "public " else "") ++
      (if method.isStatic then "static " else "") ++ method.name ++ params ++
      method.returnTy.suffix ++ " \x7b\n"

/-- The listing of a method. -/
def listing (method : Method) : String :=
  method.headText ++ String.join (method.body.map Instr.line) ++ "    \x7d\n"

end Method

namespace ClassUnit

/-- The line that opens a class. -/
def headText (unit : ClassUnit) : String :=
  match unit.superClass with
  | some parent => unit.name ++ " extends " ++ parent ++ " \x7b\n"
  | none => unit.name ++ " \x7b\n"

/-- The listing of a class: imports, fields, and each method after an empty line. -/
def listing (unit : ClassUnit) : String :=
  String.join (unit.imports.map fun qualified => "import " ++ qualified ++ ";\n") ++
    (if unit.imports.isEmpty then "" else "\n") ++
    unit.headText ++
    String.join (unit.fields.map fun field => "    .field public " ++ symbolText field ++ ";\n") ++
    String.join (unit.methods.map fun method => "\n" ++ method.listing) ++ "\x7d\n"

end ClassUnit

end ClassCompiler.ThreeAddress
