import ClassCompiler.Node.Kind
import ClassCompiler.Ty

/-!
# Compilation errors

Every error ends the compilation of its class. An error records its cause; the
wording is given once, by `CompileError.message`.
-/

namespace ClassCompiler

/-- What is wrong with a node of the syntax tree. -/
inductive NodeFault where
  | notProgram
  | noClass
  | unexpectedInProgram
  | unexpectedInClass
  | notType
  | notStatement
  | notExpression
  | missingAttribute (key : String)
  | missingChild (index found : Nat)
  | invalidInteger (text : String)
  | invalidBoolean (text : String)
  | unknownOperator (symbol : String)
  | missingReceiver
  | assignedClass (name : String)
  | invalidTarget (description : String)
deriving DecidableEq, Repr, Inhabited

/-- A construct that has no code. -/
inductive Unsupported where
  | voidCallAsValue (method : String)
  | oversizedArrayLiteral
  | memberAccess (ty : Ty)
  | voidOnStack
  | classAsValue (name : String)
  | storeInto (value : String)
deriving DecidableEq, Repr, Inhabited

/-- Three-address code that breaks its own rules. -/
inductive InternalFault where
  | declaredTwice (variableName method : String)
  | missingArraySize
  | missingArrayOperand
deriving DecidableEq, Repr, Inhabited

/-- A configuration that cannot be used. -/
inductive ConfigFault where
  | unreadable
  | badIndent
  | badRootClass (name : String)
deriving DecidableEq, Repr, Inhabited

/-- The causes for which a compilation fails. -/
inductive CompileError where
  | malformed (kind : Kind) (fault : NodeFault)
  | unsupported (construct : Unsupported)
  | unresolvedSymbol (name method : String)
  | unresolvedCall (callee : String)
  | noDescriptor (ty : Ty)
  | stackUnderflow (method : String)
  | unbalancedStack (method instr : String) (depth : Nat)
  | tooManyLocals (method : String)
  | config (fault : ConfigFault)
  | internal (fault : InternalFault)
deriving DecidableEq, Repr, Inhabited

/-- The wording of a node fault. -/
def NodeFault.message : NodeFault → String
  | .notProgram => "expected a Program node"
  | .noClass => "no class declaration"
  | .unexpectedInProgram => "unexpected node at program level"
  | .unexpectedInClass => "unexpected node in class body"
  | .notType => "expected a type node"
  | .notStatement => "expected a statement"
  | .notExpression => "expected an expression"
  | .missingAttribute key => "missing attribute `" ++ key ++ "`"
  | .missingChild index found =>
      "expected at least " ++ toString (index + 1) ++ " children, found " ++ toString found
  | .invalidInteger text => "invalid integer `" ++ text ++ "`"
  | .invalidBoolean text => "invalid boolean `" ++ text ++ "`"
  | .unknownOperator symbol => "unknown operator `" ++ symbol ++ "`"
  | .missingReceiver => "method call without a receiver"
  | .assignedClass name => "cannot assign to class `" ++ name ++ "`"
  | .invalidTarget description => "invalid assignment target " ++ description

/-- The wording of an unsupported construct. -/
def Unsupported.message : Unsupported → String
  | .voidCallAsValue method => "void call `" ++ method ++ "` used as a value"
  | .oversizedArrayLiteral => "array literal with more than 2^31 elements"
  | .memberAccess ty => "member access on a value of type " ++ ty.text
  | .voidOnStack => "void value on the operand stack"
  | .classAsValue name => "class `" ++ name ++ "` used as a value"
  | .storeInto value => "store into " ++ value

/-- The wording of an internal fault. -/
def InternalFault.message : InternalFault → String
  | .declaredTwice variableName method =>
      "variable `" ++ variableName ++ "` declared twice in method " ++ method
  | .missingArraySize => "array allocation without a size"
  | .missingArrayOperand => "arraylength without an array operand"

/-- The wording of a configuration fault. -/
def ConfigFault.message : ConfigFault → String
  | .unreadable => "the text does not hold the known options"
  | .badIndent => "indent may only contain spaces and tabs"
  | .badRootClass name =>
      "root_class must be a slash-separated class name, got `" ++ name ++ "`"

/-- The text under which an error is reported. -/
def CompileError.message : CompileError → String
  | .malformed kind fault => "Malformed AST node " ++ kind.name ++ ": " ++ fault.message
  | .unsupported construct => "Unsupported construct: " ++ construct.message
  | .unresolvedSymbol name method =>
      "Unresolved symbol '" ++ name ++ "' in method " ++ method
  | .unresolvedCall callee => "Call target cannot be resolved to a method name: " ++ callee
  | .noDescriptor ty => "No bytecode descriptor for type " ++ ty.text
  | .stackUnderflow method => "Operand stack underflow in method " ++ method
  | .unbalancedStack method instr depth =>
      "Operand stack left at depth " ++ toString depth ++ " after `" ++ instr ++
        "` in method " ++ method
  | .tooManyLocals method =>
      "Too many local variables in method " ++ method ++ " (max 65535)"
  | .config fault => "Invalid configuration: " ++ fault.message
  | .internal fault => "Internal compiler error: " ++ fault.message

end ClassCompiler
