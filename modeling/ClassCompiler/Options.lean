import ClassCompiler.Error
import ClassCompiler.StackCode.ClassFile

/-!
# Compiler options

The indent of instruction lines, the parent of a class that names none, and
whether comments are written.
-/

namespace ClassCompiler

/-- The options of a compilation. -/
structure Options where
  indent : String := "   "
  rootClass : String := "java/lang/Object"
  emitComments : Bool := true
deriving DecidableEq, Repr, Inhabited

namespace Options

/-- The part of the options that concerns the written form only. -/
def layout (options : Options) : StackCode.Layout := ⟨options.indent, options.emitComments⟩

/-- Check the options: the indent is blank, and the root class is a path. The
indent is looked at first. -/
def validate (options : Options) : Except CompileError Unit :=
  if !options.indent.toList.all (fun c => c == ' ' || c == '\t') then
    .error (.config .badIndent)
  else if options.rootClass = "" || options.rootClass.toList.contains '.' then
    .error (.config (.badRootClass options.rootClass))
  else .ok ()

end Options

end ClassCompiler
