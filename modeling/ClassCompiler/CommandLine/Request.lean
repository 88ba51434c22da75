/-!
# Requests on the command line

What the arguments of the program can ask for.
-/

namespace ClassCompiler.CommandLine

/-- When diagnostics are coloured. -/
inductive ColorChoice where
  | auto
  | always
  | never
deriving DecidableEq, Repr, Inhabited

/-- Which form of the compiled class is put out. -/
inductive OutputForm where
  | listing
  | assembly
  | both
deriving DecidableEq, Repr, Inhabited

/-- What is done with the compiled class: its listing is printed, or a form of it
is printed or written to a file. -/
inductive Command where
  | list
  | build (form : OutputForm) (output : Option String)
deriving DecidableEq, Repr, Inhabited

/-- A run of the compiler: the files it reads and what it does. -/
structure Job where
  command : Command
  input : String
  symbols : Option String := none
  config : Option String := none
  color : ColorChoice := .auto
deriving DecidableEq, Repr, Inhabited

/-- What the arguments ask for. -/
inductive Request where
  | version
  | job (job : Job)
deriving DecidableEq, Repr, Inhabited

/-- The choice that a word names. -/
def ColorChoice.ofWord? : String → Option ColorChoice
  | "auto" => some .auto
  | "always" => some .always
  | "never" => some .never
  | _ => none

/-- The form that a word names. -/
def OutputForm.ofWord? : String → Option OutputForm
  | "ir" => some .listing
  | "jasmin" => some .assembly
  | "both" => some .both
  | _ => none

end ClassCompiler.CommandLine
