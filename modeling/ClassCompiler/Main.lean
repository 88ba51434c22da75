import ClassCompiler.CommandLine.Response

/-!
# The program

The outer layer: it gives the program the files of the system and shows its report.
-/

namespace ClassCompiler.CommandLine

/-- Why an operation on a file fails, in the words of the system. Text that is not
UTF-8 is the one fault that the system does not number. -/
def reasonOf : IO.Error → String
  | .alreadyExists _ code details
  | .interrupted _ code details
  | .noFileOrDirectory _ code details
  | .invalidArgument _ code details
  | .permissionDenied _ code details
  | .resourceExhausted _ code details
  | .inappropriateType _ code details
  | .noSuchThing _ code details
  | .otherError code details
  | .resourceBusy code details
  | .resourceVanished code details
  | .unsupportedOperation code details
  | .hardwareFault code details
  | .unsatisfiedConstraints code details
  | .illegalOperation code details
  | .protocolError code details
  | .timeExpired code details => details ++ " (os error " ++ toString code ++ ")"
  | .unexpectedEof
  | .userError _ => "stream did not contain valid UTF-8"

/-- The content of a file. -/
def contentOf (path : String) : IO Content := do
  try
    let file ← IO.FS.Handle.mk path .read
    return .ok (← file.readToEnd)
  catch error => return .error (reasonOf error)

/-- Write a file. -/
def writeTo (path text : String) : IO (Except String Unit) := do
  try
    IO.FS.writeFile path text
    return .ok ()
  catch error => return .error (reasonOf error)

/-- The files of the system. -/
def systemFiles : Files IO := { read := contentOf, write := writeTo }

/-- What colouring depends on here. -/
def surroundings : IO Surroundings := do
  return {
    noColor := (← IO.getEnv "NO_COLOR").isSome
    terminal := ← IO.getEnv "TERM" }

end ClassCompiler.CommandLine

open ClassCompiler.CommandLine in
/-- Run the program. -/
def main (arguments : List String) : IO UInt32 := do
  let report ← respond systemFiles (← surroundings) arguments
  IO.print report.output
  IO.eprint report.diagnostics
  return report.status
