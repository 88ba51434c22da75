import ClassCompiler.Program.OfNode
import ClassCompiler.StackCode.OfClass
import ClassCompiler.ThreeAddress.Listing
import ClassCompiler.ThreeAddress.OfProgram

/-!
# Compilation

A program is lowered to three-address code, and the three-address code is turned
into stack code. Every compilation starts from a new supply of names and labels,
so its result depends on the options, the symbol table and the program alone.
-/

namespace ClassCompiler

/-- A compiled class: its three-address code and its written stack code. -/
structure Compiled where
  unit : ThreeAddress.ClassUnit
  assembly : String
deriving DecidableEq, Repr, Inhabited

/-- The listing of the three-address code. -/
def Compiled.listing (compiled : Compiled) : String := compiled.unit.listing

/-- Compile a program against a symbol table. -/
def compile (options : Options) (table : SymbolTable) (program : Program) :
    Except CompileError Compiled := do
  let unit ← ThreeAddress.lowerFresh table program
  let assembly ← StackCode.assembleFresh options unit
  return { unit, assembly }

/-- Compile a program against the symbol table that it declares. -/
def compileProgram (options : Options) (program : Program) : Except CompileError Compiled :=
  compile options (SymbolTable.ofProgram program) program

/-- Compile a syntax tree, against a given symbol table or the one it declares. -/
def compileNode (options : Options) (table : Option SymbolTable) (node : Node) :
    Except CompileError Compiled := do
  let program ← Program.ofNode node
  match table with
  | some table => compile options table program
  | none => compileProgram options program

end ClassCompiler
