import ClassCompiler.CommandLine.Request
import ClassCompiler.Compile
import ClassCompiler.Node.Document
import ClassCompiler.Options.Reader
import ClassCompiler.SymbolTable.Document

/-!
# Running a job

A job is given the contents of its files, or the reasons why they cannot be read,
and yields what is to be printed or written. The configuration is looked at first,
then the syntax tree, then the symbol table; the first fault ends the job.
-/

namespace ClassCompiler.CommandLine

/-- The content of a file, or why it cannot be had. -/
abbrev Content := Except String String

/-- The contents of the files of a job. -/
structure Sources where
  config : Option Content
  tree : Content
  symbols : Option Content

/-- Why a job fails, with the path of the file concerned. -/
inductive Failure where
  | unreadableConfig (path reason : String)
  | invalidConfig (path : String) (error : CompileError)
  | unreadable (path reason : String)
  | notTree (path : String)
  | notTable (path : String)
  | uncompilable (path : String) (error : CompileError)
  | unwritable (path reason : String)
deriving DecidableEq, Repr, Inhabited

/-- The wording of a failure. -/
def Failure.message : Failure → String
  | .unreadableConfig path reason => "failed to read config " ++ path ++ ": " ++ reason
  | .invalidConfig path error => "invalid config " ++ path ++ ": " ++ error.message
  | .unreadable path reason => "failed to read " ++ path ++ ": " ++ reason
  | .notTree path => path ++ " is not an AST node tree: unexpected JSON"
  | .notTable path => path ++ " is not a symbol table: unexpected JSON"
  | .uncompilable path error => "failed to compile " ++ path ++ ": " ++ error.message
  | .unwritable path reason => "failed to write " ++ path ++ ": " ++ reason

/-- What a job yields. -/
inductive Product where
  | printed (text : String)
  | written (className path text : String)
deriving DecidableEq, Repr, Inhabited

/-- The options of a job. -/
def optionsOf (job : Job) (sources : Sources) : Except Failure Options :=
  match job.config, sources.config with
  | some path, some (.ok text) => (Options.ofConfig text).mapError (.invalidConfig path)
  | some path, some (.error reason) => .error (.unreadableConfig path reason)
  | _, _ => .ok {}

/-- The syntax tree of a job. -/
def treeOf (job : Job) (sources : Sources) : Except Failure Node :=
  match sources.tree with
  | .error reason => .error (.unreadable job.input reason)
  | .ok text =>
      match Node.ofText? text with
      | some node => .ok node
      | none => .error (.notTree job.input)

/-- The symbol table of a job, if it names one. -/
def tableOf (job : Job) (sources : Sources) : Except Failure (Option SymbolTable) :=
  match job.symbols, sources.symbols with
  | some path, some (.error reason) => .error (.unreadable path reason)
  | some path, some (.ok text) =>
      match SymbolTable.ofText? text with
      | some table => .ok (some table)
      | none => .error (.notTable path)
  | _, _ => .ok none

/-- A compiled class in a given form. -/
def OutputForm.render (compiled : Compiled) : OutputForm → String
  | .listing => compiled.listing
  | .assembly => compiled.assembly
  | .both => compiled.listing ++ "\n" ++ compiled.assembly

/-- Run a job on the contents of its files. -/
def Job.run (job : Job) (sources : Sources) : Except Failure Product := do
  let options ← optionsOf job sources
  let node ← treeOf job sources
  let table ← tableOf job sources
  let compiled ← (compileNode options table node).mapError (.uncompilable job.input)
  match job.command with
  | .list => return .printed compiled.listing
  | .build form none => return .printed (form.render compiled)
  | .build form (some path) => return .written compiled.unit.name path (form.render compiled)

end ClassCompiler.CommandLine
