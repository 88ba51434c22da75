import ClassCompiler.CommandLine.Arguments
import ClassCompiler.CommandLine.Report

/-!
# Responses

The program from its arguments to its report. It gets at files by two operations only,
which are given to it, so it runs alike on the files of a system and on any other store
of texts.
-/

namespace ClassCompiler.CommandLine

/-- How files are read and written. -/
structure Files (m : Type → Type) where
  read : (path : String) → m Content
  write : (path text : String) → m (Except String Unit)

variable {m : Type → Type} [Monad m]

/-- The contents of the files of a job. -/
def Job.sources (files : Files m) (job : Job) : m Sources := do
  return {
    config := ← job.config.mapM files.read
    tree := ← files.read job.input
    symbols := ← job.symbols.mapM files.read }

/-- Run a job with its files. -/
def Job.report (files : Files m) (colors : Bool) (job : Job) : m Report := do
  match job.run (← job.sources files) with
  | .error failure => return .failure colors failure
  | .ok (.printed text) => return .printed text
  | .ok (.written className path text) =>
      return .ofWriting colors className path (← files.write path text)

/-- Run the program on its arguments. -/
def respond (files : Files m) (surroundings : Surroundings) (arguments : List String) :
    m Report :=
  match Request.ofArguments? arguments with
  | none => pure .usage
  | some .version => pure .version
  | some (.job job) => job.report files (surroundings.colors job.color)

end ClassCompiler.CommandLine
