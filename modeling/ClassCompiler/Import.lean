/-!
# Import names

An import is written with dots, as in `io.Console`. The code of the class calls
it by its last part and the class file by its path, which has slashes for dots.
-/

namespace ClassCompiler.Import

/-- The part of an import after its last dot, or all of it if it has none. -/
def simpleName (qualified : String) : String :=
  String.ofList (qualified.toList.reverse.takeWhile (· != '.')).reverse

/-- The path of an import: its parts with slashes between them. -/
def path (qualified : String) : String :=
  String.ofList (qualified.toList.map fun c => if c = '.' then '/' else c)

end ClassCompiler.Import
