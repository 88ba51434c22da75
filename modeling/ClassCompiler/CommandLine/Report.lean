import ClassCompiler.CommandLine.Run

/-!
# Reports

How the end of a run is shown: what goes to the standard output, what goes to the
diagnostics, and the exit status. Diagnostics start with one word, which may be
coloured.
-/

namespace ClassCompiler.CommandLine

/-- What a run shows at its end. -/
structure Report where
  status : UInt32 := 0
  output : String := ""
  diagnostics : String := ""
deriving DecidableEq, Repr, Inhabited

/-- What colouring depends on besides the arguments: whether colour is ruled out,
and the kind of terminal. -/
structure Surroundings where
  noColor : Bool
  terminal : Option String
deriving DecidableEq, Repr, Inhabited

/-- Whether diagnostics are coloured. -/
def Surroundings.colors (surroundings : Surroundings) (choice : ColorChoice) : Bool :=
  !surroundings.noColor &&
    match choice with
    | .always => true
    | .never => false
    | .auto => surroundings.terminal.any (· != "dumb")

/-- The colours of the first word. -/
inductive Color where
  | red
  | green
deriving DecidableEq, Repr, Inhabited

/-- The terminal code of a colour. -/
def Color.code : Color → String
  | .red => "31"
  | .green => "32"

/-- A word, in bold and in a colour if colours are on. -/
def styled (colors : Bool) (color : Color) (word : String) : String :=
  if colors then "\x1b[0m\x1b[1m\x1b[" ++ color.code ++ "m" ++ word ++ "\x1b[0m" else word

namespace Report

/-- The report of the version. -/
def version : Report := { output := "jmmc 0.1.0\n" }

/-- The report of arguments that cannot be understood. -/
def usage : Report where
  status := 2
  diagnostics :=
    "error: unexpected arguments\n\nUsage: jmmc [OPTIONS] ir|build <INPUT> [OPTIONS]\n"

/-- The report of a failure. -/
def failure (colors : Bool) (failure : Failure) : Report where
  status := 1
  diagnostics := styled colors .red "error" ++ ": " ++ failure.message ++ "\n"

/-- The report of text that is printed. -/
def printed (text : String) : Report := { output := text }

/-- The report of a class that has been written to a file. -/
def written (colors : Bool) (className path : String) : Report where
  diagnostics := styled colors .green "Compiled" ++ " " ++ className ++ " -> " ++ path ++ "\n"

/-- The report of an attempt to write a file. -/
def ofWriting (colors : Bool) (className path : String) : Except String Unit → Report
  | .ok () => written colors className path
  | .error reason => failure colors (.unwritable path reason)

end Report

end ClassCompiler.CommandLine
