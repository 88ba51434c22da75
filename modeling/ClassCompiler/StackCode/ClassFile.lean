import ClassCompiler.StackCode.Instr

/-!
# Class files

The finished stack code of a class, and its written form. The layout decides on
the indent of instructions and on comments; it changes nothing else.
-/

namespace ClassCompiler.StackCode

/-- What the first line of a method says. The constructor and the entry point have
fixed headers. -/
inductive Header where
  | constructor
  | main
  | method (isPublic isStatic : Bool) (name : String) (descriptor : MethodDescriptor)
deriving DecidableEq, Repr, Inhabited

/-- The finished code of a method with its limits. -/
structure MethodCode where
  header : Header
  stackLimit : Nat
  localLimit : Nat
  lines : List (Line Instr)
deriving DecidableEq, Repr, Inhabited

/-- The finished code of a class. -/
structure ClassFile where
  name : String
  superPath : String
  fields : List (String × Descriptor)
  methods : List MethodCode
deriving DecidableEq, Repr, Inhabited

/-- The freedom of the written form: the indent of instruction lines, and whether
the constructor gets a comment. -/
structure Layout where
  indent : String
  comments : Bool
deriving DecidableEq, Repr, Inhabited

/-- The written form of a header. -/
def Header.text : Header → String
  | .constructor => ".method public <init>()V"
  | .main => ".method public static main([Ljava/lang/String;)V"
  | .method isPublic isStatic name descriptor =>
      ".method " ++ (if isPublic then "public" else "private") ++
        (if isStatic then " static " else " ") ++ name ++ descriptor.text

/-- The written form of a method. -/
def MethodCode.text (layout : Layout) (method : MethodCode) : String :=
  (if method.header = .constructor ∧ layout.comments then "; default constructor\n" else "") ++
    method.header.text ++ "\n" ++
    layout.indent ++ ".limit stack " ++ toString method.stackLimit ++ "\n" ++
    layout.indent ++ ".limit locals " ++ toString method.localLimit ++ "\n" ++
    String.join (method.lines.map fun line => line.text layout.indent Instr.text ++ "\n") ++
    ".end method\n"

/-- The written form of a class: its name and parent, its fields, and its methods
with an empty line between them. -/
def ClassFile.text (layout : Layout) (file : ClassFile) : String :=
  ".class public " ++ file.name ++ "\n" ++
    ".super " ++ file.superPath ++ "\n\n" ++
    String.join (file.fields.map fun (name, descriptor) =>
      ".field public '" ++ name ++ "' " ++ descriptor.text ++ "\n") ++
    (if file.fields.isEmpty then "" else "\n") ++
    String.intercalate "\n" (file.methods.map (MethodCode.text layout))

end ClassCompiler.StackCode
