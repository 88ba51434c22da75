import ClassCompiler.Error
import ClassCompiler.StackCode.Descriptor
import ClassCompiler.ThreeAddress.Method

/-!
# Class paths

The class file names every class by its path. The class itself keeps its name,
the string class has a fixed path, and an imported class has the path of its
import. Of several imports with one simple name the first counts.
-/

namespace ClassCompiler.StackCode

/-- What the paths of a class depend on: its own name, and the path known for
each imported simple name. -/
structure ClassPaths where
  className : String
  imports : List (String × String)
deriving DecidableEq, Repr, Inhabited

namespace ClassPaths

/-- Enter an import unless its simple name is known already. -/
def enter (known : List (String × String)) (entry : String × String) : List (String × String) :=
  if (known.lookup entry.1).isSome then known else known ++ [entry]

/-- The paths seen from a class. -/
def ofClass (unit : ThreeAddress.ClassUnit) : ClassPaths where
  className := unit.name
  imports := unit.importTable.foldl enter []

/-- The path of the built-in string class. -/
def stringPath : String := "java/lang/String"

/-- The path of a class; a name that is not imported is its own path. -/
def classPath (paths : ClassPaths) (name : String) : String :=
  if name = paths.className then name
  else if name = "String" then stringPath
  else (paths.imports.lookup name).getD name

/-- The descriptor of single values of a type name. -/
def baseDescriptor (paths : ClassPaths) (name : String) : Descriptor :=
  if name = "int" then .int
  else if name = "boolean" then .boolean
  else if name = "void" then .void
  else if name = "String" then .object stringPath
  else .object (paths.classPath name)

/-- The descriptor of a type. An array of `void` has none. -/
def descriptor (paths : ClassPaths) (ty : Ty) : Except CompileError Descriptor :=
  if ty.isArray then
    if ty.name = "void" then .error (.noDescriptor ty)
    else .ok (.array (paths.baseDescriptor ty.name))
  else .ok (paths.baseDescriptor ty.name)

/-- The descriptor of a parameter. `void` is no parameter type. -/
def paramDescriptor (paths : ClassPaths) (ty : Ty) : Except CompileError Descriptor :=
  if ty.isVoid then .error (.noDescriptor ty) else paths.descriptor ty

/-- The descriptor of a method from the types of its parameters and its result. -/
def methodDescriptor (paths : ClassPaths) (params : List Ty) (result : Ty) :
    Except CompileError MethodDescriptor := do
  let params ← params.mapM paths.paramDescriptor
  let result ← paths.descriptor result
  return ⟨params, result⟩

end ClassPaths

end ClassCompiler.StackCode
