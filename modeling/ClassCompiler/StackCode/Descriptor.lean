/-!
# Descriptors

The class file describes the type of a field by one descriptor and the type of a
method by those of its parameters and its result.
-/

namespace ClassCompiler.StackCode

/-- The descriptor of a type. `void` describes only the result of a method. -/
inductive Descriptor where
  | int
  | boolean
  | void
  | object (path : String)
  | array (elem : Descriptor)
deriving DecidableEq, Repr, Inhabited

/-- The written form of a descriptor: `I`, `[I`, `Ljava/lang/String;`. -/
def Descriptor.text : Descriptor → String
  | .int => "I"
  | .boolean => "Z"
  | .void => "V"
  | .object path => "L" ++ path ++ ";"
  | .array elem => "[" ++ elem.text

/-- The descriptor of a method. -/
structure MethodDescriptor where
  params : List Descriptor
  result : Descriptor
deriving DecidableEq, Repr, Inhabited

/-- The written form of a method descriptor: `(I[I)Z`. -/
def MethodDescriptor.text (descriptor : MethodDescriptor) : String :=
  "(" ++ String.join (descriptor.params.map Descriptor.text) ++ ")" ++ descriptor.result.text

end ClassCompiler.StackCode
