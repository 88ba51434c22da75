import ClassCompiler.Options
import ClassCompiler.Options.Quoted

/-!
# Reading a configuration

A configuration is a text of lines, each empty or an assignment of a string or a
truth value to a key, with a comment at the end or none. Only the keys of the
options may be assigned, each once, and each to a value of its own kind. A
configuration in any other form is refused as unreadable, and one that can be read
is checked.
-/

namespace ClassCompiler.Options

/-- What a key can be assigned. -/
inductive Setting where
  | text (value : String)
  | flag (value : Bool)
deriving DecidableEq, Repr, Inhabited

/-- What follows a line from here on: blanks, a comment, and the end of the line
or of the whole text. -/
def afterLine? (cs : List Char) : Option (List Char) :=
  let cs := match cs.dropWhile isBlank with
    | '#' :: rest => rest.dropWhile isLineChar
    | rest => rest
  if cs.isEmpty then some [] else afterBreak? cs

/-- Characters of a key without quotes. -/
def isKeyChar (c : Char) : Bool := c.isAlphanum || c = '_' || c = '-'

/-- Read a key, and give what follows. A key in quotes stands on one line. -/
def key? (cs : List Char) : Option (List Char × List Char) :=
  match cs with
  | '"' :: rest => basicString? rest
  | '\'' :: rest => literalString? rest
  | _ => if (cs.takeWhile isKeyChar).isEmpty then none else some (cs.span isKeyChar)

/-- Read a value, and give what follows. -/
def setting? (cs : List Char) : Option (Setting × List Char) :=
  match cs with
  | 't' :: 'r' :: 'u' :: 'e' :: rest => some (.flag true, rest)
  | 'f' :: 'a' :: 'l' :: 's' :: 'e' :: rest => some (.flag false, rest)
  | _ => (string? cs).map fun (text, rest) => (.text (String.ofList text), rest)

/-- Read an assignment with the rest of its line, and give the lines that
follow. -/
def assignment? (cs : List Char) : Option ((String × Setting) × List Char) := do
  let (key, rest) ← key? cs
  let rest ← match rest.dropWhile isBlank with
    | '=' :: rest => some rest
    | _ => none
  let (setting, rest) ← setting? (rest.dropWhile isBlank)
  let rest ← afterLine? rest
  return ((String.ofList key, setting), rest)

/-- Read the assignments of a text. Every line takes a character, so the length
of the text bounds the number of lines; it is the first argument. -/
def assignments? : Nat → List Char → Option (List (String × Setting))
  | _, [] => some []
  | 0, _ :: _ => none
  | bound + 1, cs =>
      match afterLine? cs with
      | some rest => assignments? bound rest
      | none => do
          let (assignment, rest) ← assignment? (cs.dropWhile isBlank)
          let assignments ← assignments? bound rest
          return assignment :: assignments

/-- Assign a value to an option. -/
def assign? (options : Options) : String × Setting → Option Options
  | ("indent", .text indent) => some { options with indent }
  | ("root_class", .text rootClass) => some { options with rootClass }
  | ("emit_comments", .flag emitComments) => some { options with emitComments }
  | _ => none

/-- Drop a byte order mark at the start of a text. -/
def dropMark : List Char → List Char
  | '\ufeff' :: rest => rest
  | cs => cs

/-- The options that a configuration gives, before they are checked. -/
def ofConfig? (text : String) : Option Options := do
  let cs := dropMark text.toList
  let assignments ← assignments? cs.length cs
  if (assignments.map Prod.fst).Nodup then assignments.foldlM assign? {} else none

/-- The options that a configuration gives. -/
def ofConfig (text : String) : Except CompileError Options := do
  match ofConfig? text with
  | none => .error (.config .unreadable)
  | some options =>
      options.validate
      return options

end ClassCompiler.Options
