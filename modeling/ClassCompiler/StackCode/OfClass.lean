import ClassCompiler.Options
import ClassCompiler.StackCode.ClassFile
import ClassCompiler.StackCode.OfInstr

/-!
# Stack code of a class

Each method is emitted into a frame of its own. The numbers of comparison labels
run through the whole class and beyond: a generation starts from given numbers
and hands on the next ones, also when it fails.
-/

namespace ClassCompiler.StackCode

open ThreeAddress (Method ClassUnit)

/-- A generation may fail, and keeps the numbers of comparison labels when it
does. -/
abbrev Generation := EStateM CompileError ComparisonCounts

/-- The path of the parent: that of the named class, or the root class. -/
def parentPath (paths : ClassPaths) (rootClass : String) (unit : ClassUnit) : String :=
  match unit.superClass with
  | some parent => paths.classPath parent
  | none => rootClass

/-- What the code of a class depends on. -/
def Linkage.ofClass (rootClass : String) (unit : ClassUnit) : Linkage :=
  let paths := ClassPaths.ofClass unit
  ⟨paths, parentPath paths rootClass unit⟩

/-- The header of a method. -/
def headerOf (paths : ClassPaths) (method : Method) : Except CompileError Header :=
  if method.isConstructor then .ok .constructor
  else if method.isMain then .ok .main
  else do
    let descriptor ← paths.methodDescriptor (method.params.map Symbol.ty) method.returnTy
    return .method method.isPublic method.isStatic method.name descriptor

/-- The finished code of a method from its frame. -/
def finishMethod (header : Header) (frame : Frame Instr) : MethodCode :=
  ⟨header, frame.maxDepth, frame.locals, frame.lines.toList⟩

/-- Generate a method: its frame, its body, and last its header. -/
def generateMethod (linkage : Linkage) (method : Method) : Generation MethodCode :=
  fun counts =>
    match Frame.ofMethod method with
    | .error error => .error error counts
    | .ok frame =>
        match emitBody linkage method method.body ⟨frame, counts⟩ with
        | .error error emitter => .error error emitter.comparisons
        | .ok _ emitter =>
            match headerOf linkage.paths method with
            | .error error => .error error emitter.comparisons
            | .ok header => .ok (finishMethod header emitter.frame) emitter.comparisons

/-- Generate methods in order. -/
def generateMethods (linkage : Linkage) : List Method → Generation (List MethodCode)
  | [] => pure []
  | method :: rest => do
      let code ← generateMethod linkage method
      let codes ← generateMethods linkage rest
      return code :: codes

/-- The descriptor of every field. -/
def fieldDescriptors (paths : ClassPaths) (fields : List Symbol) :
    Except CompileError (List (String × Descriptor)) :=
  fields.mapM fun field => do return (field.name, ← paths.descriptor field.ty)

/-- Generate a class: fields first, then methods. -/
def generateClass (rootClass : String) (unit : ClassUnit) : Generation ClassFile := do
  let linkage := Linkage.ofClass rootClass unit
  let fields ← match fieldDescriptors linkage.paths unit.fields with
    | .ok fields => pure fields
    | .error error => throw error
  let methods ← generateMethods linkage unit.methods
  return ⟨unit.name, linkage.superPath, fields, methods⟩

/-- The written stack code of a class. -/
def assemble (options : Options) (unit : ClassUnit) : Generation String := do
  return (← generateClass options.rootClass unit).text options.layout

/-- The written stack code of a class whose comparisons are numbered from zero. -/
def assembleFresh (options : Options) (unit : ClassUnit) : Except CompileError String :=
  match assemble options unit {} with
  | .ok text _ => .ok text
  | .error error _ => .error error

end ClassCompiler.StackCode
