import ClassCompiler.CommandLine.Request

/-!
# Reading arguments

Options may stand before the command and after it. `--name value`, `--name=value`,
`-n value`, `-nvalue` and `-n=value` give an option a value; letters of options
without value may be joined. A value does not start with a dash, except that it
may be a single dash. After `--` every argument is an operand. Every option that
takes a value is given at most once, though one that stands before the command may
be given again after it, where it counts. Arguments in any other form are refused.
-/

namespace ClassCompiler.CommandLine

/-- The options. -/
inductive Flag where
  | config
  | color
  | verbose
  | version
  | symbols
  | output
  | emit
deriving DecidableEq, Repr, Inhabited

/-- The places where options may stand: before the command, or after one. -/
inductive Place where
  | top
  | list
  | build
deriving DecidableEq, Repr, Inhabited

namespace Flag

/-- The name after two dashes. -/
def name : Flag → String
  | .config => "config"
  | .color => "color"
  | .verbose => "verbose"
  | .version => "version"
  | .symbols => "symbols"
  | .output => "output"
  | .emit => "emit"

/-- The letter after one dash. -/
def letter? : Flag → Option Char
  | .verbose => some 'v'
  | .version => some 'V'
  | .output => some 'o'
  | _ => none

/-- Whether an option takes a value. -/
def takesValue : Flag → Bool
  | .verbose | .version => false
  | _ => true

end Flag

/-- The options that may stand at a place. -/
def Place.flags : Place → List Flag
  | .top => [.config, .color, .verbose, .version]
  | .list => [.config, .color, .verbose, .symbols]
  | .build => [.config, .color, .verbose, .symbols, .output, .emit]

/-- The option of a name at a place. -/
def Place.named? (place : Place) (name : String) : Option Flag :=
  place.flags.find? fun flag => flag.name == name

/-- The option of a letter at a place. -/
def Place.lettered? (place : Place) (letter : Char) : Option Flag :=
  place.flags.find? fun flag => flag.letter? == some letter

/-- An argument that has been recognised. -/
inductive Given where
  | plain (flag : Flag)
  | valued (flag : Flag) (value : String)
  | operand (value : String)
deriving DecidableEq, Repr, Inhabited

/-! ## Recognition -/

/-- The parts of an argument. -/
inductive Shape where
  | endOfOptions
  | long (name : String) (value : Option String)
  | short (letters : List Char)
  | operand
deriving DecidableEq, Repr, Inhabited

/-- Split an argument by its dashes. -/
def shapeOf (argument : String) : Shape :=
  match argument.toList with
  | ['-', '-'] => .endOfOptions
  | '-' :: '-' :: rest =>
      match rest.span (· != '=') with
      | (name, '=' :: value) => .long (String.ofList name) (some (String.ofList value))
      | (name, _) => .long (String.ofList name) none
  | ['-'] => .operand
  | '-' :: letters => .short letters
  | _ => .operand

/-- What a run of letters gives: options without value, and possibly one at the end
that has its value in the run or awaits it. -/
structure Letters where
  given : List Given
  awaiting : Option Flag
deriving DecidableEq, Repr, Inhabited

/-- The text of a value that follows its letter. -/
def attachedValue : List Char → String
  | '=' :: value => String.ofList value
  | value => String.ofList value

/-- Read a run of letters. -/
def letters? (place : Place) : List Char → Option Letters
  | [] => some ⟨[], none⟩
  | letter :: rest =>
      match place.lettered? letter with
      | none => none
      | some .version => some ⟨[.plain .version], none⟩
      | some flag =>
          if flag.takesValue then
            if rest.isEmpty then some ⟨[], some flag⟩
            else some ⟨[.valued flag (attachedValue rest)], none⟩
          else do
            let letters ← letters? place rest
            return { letters with given := .plain flag :: letters.given }

/-- The arguments recognised at a place. At the top, recognition ends at the first
operand, which names the command, and the arguments after it are kept. -/
structure Recognised where
  given : List Given
  command : Option (String × List String)
deriving DecidableEq, Repr, Inhabited

/-- Put arguments before those recognised. -/
def Recognised.after (given : List Given) (recognised : Recognised) : Recognised :=
  { recognised with given := given ++ recognised.given }

/-- Recognise arguments. An option that awaits its value takes the next argument.
Nothing is read after a request for the version. -/
def recognise? (place : Place) : Option Flag → List String → Option Recognised
  | none, [] => some ⟨[], none⟩
  | some _, [] => none
  | some flag, argument :: rest =>
      if shapeOf argument = .operand then do
        return (← recognise? place none rest).after [.valued flag argument]
      else none
  | none, argument :: rest =>
      match shapeOf argument with
      | .endOfOptions => some ⟨rest.map .operand, none⟩
      | .operand =>
          if place = .top then some ⟨[], some (argument, rest)⟩
          else do return (← recognise? place none rest).after [.operand argument]
      | .long name value =>
          match place.named? name, value with
          | none, _ => none
          | some .version, none => some ⟨[.plain .version], none⟩
          | some flag, none =>
              if flag.takesValue then recognise? place (some flag) rest
              else do return (← recognise? place none rest).after [.plain flag]
          | some flag, some value =>
              if flag.takesValue then do
                return (← recognise? place none rest).after [.valued flag value]
              else none
      | .short letters =>
          match letters? place letters with
          | none => none
          | some ⟨given, awaiting⟩ =>
              if given.contains (.plain .version) then some ⟨given, none⟩
              else do return (← recognise? place awaiting rest).after given

/-! ## Interpretation -/

/-- What the arguments at one place have set. -/
structure Settings where
  config : Option String := none
  color : Option ColorChoice := none
  symbols : Option String := none
  output : Option String := none
  emit : Option OutputForm := none
  input : Option String := none
  version : Bool := false
deriving DecidableEq, Repr, Inhabited

/-- A value that may be set once. -/
def once? {α : Type} (held new : Option α) : Option (Option α) :=
  match held, new with
  | none, some value => some (some value)
  | _, _ => none

/-- A path is not empty. -/
def path? (text : String) : Option String := if text.isEmpty then none else some text

/-- Take one argument into account. -/
def Settings.take? (settings : Settings) : Given → Option Settings
  | .plain .version => some { settings with version := true }
  | .plain _ => some settings
  | .operand value => do return { settings with input := ← once? settings.input (path? value) }
  | .valued .config value => do
      return { settings with config := ← once? settings.config (path? value) }
  | .valued .color value => do
      return { settings with color := ← once? settings.color (ColorChoice.ofWord? value) }
  | .valued .symbols value => do
      return { settings with symbols := ← once? settings.symbols (path? value) }
  | .valued .output value => do
      return { settings with output := ← once? settings.output (path? value) }
  | .valued .emit value => do
      return { settings with emit := ← once? settings.emit (OutputForm.ofWord? value) }
  | .valued _ _ => none

/-- The settings that the arguments at a place give, and the command. -/
def settings? (place : Place) (arguments : List String) :
    Option (Settings × Option (String × List String)) := do
  let recognised ← recognise? place none arguments
  let settings ← recognised.given.foldlM Settings.take? {}
  return (settings, recognised.command)

/-- The job of a command, with the settings before it and after it. -/
def job? (outer inner : Settings) (command : Command) : Option Job := do
  let input ← inner.input
  return {
    command
    input
    symbols := inner.symbols
    config := inner.config.or outer.config
    color := (inner.color.or outer.color).getD .auto }

/-- What the arguments ask for; `none` if they cannot be understood. -/
def Request.ofArguments? (arguments : List String) : Option Request := do
  let (outer, command) ← settings? .top arguments
  if outer.version then return .version
  else
    match command with
    | some ("ir", rest) => do
        let (inner, _) ← settings? .list rest
        return .job (← job? outer inner .list)
    | some ("build", rest) => do
        let (inner, _) ← settings? .build rest
        return .job (← job? outer inner (.build (inner.emit.getD .assembly) inner.output))
    | _ => none

end ClassCompiler.CommandLine
