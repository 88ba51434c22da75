import ClassCompiler.Proofs.Assembly.Quoted
import ClassCompiler.StackCode.Instr

/-!
# Reading stack code

A line of written stack code is a label with a colon, or an instruction word with or
without an operand. The words and the operands are those of the class file format:
small constants and slots have words of their own, numbers have ranges, and a member
is named by the path of its owner, its name and its descriptor.
-/

namespace ClassCompiler.StackCode

/-! ## Words, numbers and names -/

/-- Blanks separate words. -/
def isBlank (char : Char) : Bool := char == ' ' || char == '\t'

/-- The text up to the first blank. -/
def firstWord (text : List Char) : List Char := text.takeWhile fun char => !isBlank char

/-- The text behind the first blank. -/
def afterWord (text : List Char) : List Char := (text.dropWhile fun char => !isBlank char).tail

/-- A number without a sign. -/
def readNat (text : List Char) : Option Nat :=
  if text ≠ [] ∧ text.all Char.isDigit then some (Nat.ofDigitChars 10 text 0) else none

/-- A number that may have a minus sign. -/
def readInt : List Char → Option Int
  | '-' :: digits => (readNat digits).map fun number => -(number : Int)
  | digits => (readNat digits).map fun number => (number : Int)

/-- A number in a range. -/
def readRange (least most : Int) (text : List Char) : Option Int :=
  (readInt text).filter fun number => least ≤ number ∧ number ≤ most

/-- One word. -/
def readWord (text : List Char) : Option String :=
  if text ≠ [] ∧ text.all (fun char => !isBlank char) then some (String.ofList text) else none

/-- The path of an owner and the name of a member, which is behind the last slash. -/
def readMember (text : List Char) : Option (String × String) :=
  match text.reverse.dropWhile (· ≠ '/') with
  | [] => none
  | _ :: owner =>
      some (String.ofList owner.reverse,
        String.ofList (text.reverse.takeWhile (· ≠ '/')).reverse)

/-! ## Descriptors -/

/-- A descriptor, and the text behind it. -/
def readDescriptor : List Char → Option (Descriptor × List Char)
  | 'I' :: rest => some (.int, rest)
  | 'Z' :: rest => some (.boolean, rest)
  | 'V' :: rest => some (.void, rest)
  | '[' :: text => (readDescriptor text).map fun (elem, rest) => (.array elem, rest)
  | 'L' :: text =>
      match text.dropWhile (· ≠ ';') with
      | [] => none
      | _ :: rest => some (.object (String.ofList (text.takeWhile (· ≠ ';'))), rest)
  | _ => none

theorem length_of_readDescriptor {text rest : List Char} {descriptor : Descriptor}
    (found : readDescriptor text = some (descriptor, rest)) : rest.length < text.length := by
  fun_induction readDescriptor text generalizing descriptor with
  | case1 rest | case2 rest | case3 rest =>
      cases found
      exact Nat.lt_succ_self _
  | case4 text ih =>
      rw [Option.map_eq_some_iff] at found
      rcases found with ⟨⟨elem, last⟩, elemEq, pairEq⟩
      cases pairEq
      exact Nat.lt_succ_of_lt (ih elemEq)
  | case5 => cases found
  | case6 text first tail dropped =>
      cases found
      have shorter := (List.dropWhile_suffix (· ≠ ';') : _ <:+ text).length_le
      rw [dropped, List.length_cons] at shorter
      rw [List.length_cons]
      omega
  | case7 => cases found

/-- Descriptors up to a closing parenthesis, and the text behind it. -/
def readParams (text : List Char) : Option (List Descriptor × List Char) :=
  if text.head? = some ')' then some ([], text.tail)
  else
    match _ : readDescriptor text with
    | none => none
    | some (param, rest) => (readParams rest).map fun (params, last) => (param :: params, last)
termination_by text.length
decreasing_by exact length_of_readDescriptor ‹_›

/-- A descriptor that is the whole text. -/
def readWholeDescriptor (text : List Char) : Option Descriptor :=
  match readDescriptor text with
  | some (descriptor, []) => some descriptor
  | _ => none

/-- A method descriptor behind its opening parenthesis. -/
def readSignature (text : List Char) : Option MethodDescriptor := do
  let (params, rest) ← readParams text
  return ⟨params, ← readWholeDescriptor rest⟩

/-! ## Operands -/

/-- A constant in a range. -/
def readConstant (least most : Int) (text : List Char) : Option Instr :=
  (readRange least most text).map fun number => .pushInt (Int32.ofInt number)

/-- A constant of the class: a quoted text or a number. -/
def readClassConstant : List Char → Option Instr
  | '"' :: text => (Text.readQuoted text).map fun chars => .pushString (String.ofList chars)
  | text => readConstant (-2147483648) 2147483647 text

/-- The slot and the amount of an increment. -/
def readIncrement (text : List Char) : Option Instr := do
  let slot ← readNat (firstWord text)
  let delta ← readRange (-128) 127 (afterWord text)
  return .increment slot (Int8.ofInt delta)

/-- The elements of an array that are no objects. -/
def readPrimitive (text : List Char) : Option Instr :=
  match String.ofList text with
  | "int" => some (.newArray .int)
  | "boolean" => some (.newArray .boolean)
  | _ => none

/-- A field with its descriptor. -/
def readFieldOperand (make : String → String → Descriptor → Instr) (text : List Char) :
    Option Instr := do
  let (owner, field) ← readMember (firstWord text)
  return make owner field (← readWholeDescriptor (afterWord text))

/-- A method with its descriptor. -/
def readMethodOperand (mode : ThreeAddress.InvokeMode) (text : List Char) : Option Instr := do
  let (owner, method) ← readMember (text.takeWhile (· ≠ '('))
  return .invoke mode owner method (← readSignature (text.dropWhile (· ≠ '(')).tail)

/-! ## Instructions -/

/-- The instructions that are one word. -/
def loneInstrs : List (String × Instr) :=
  [("iconst_m1", .pushInt (-1)), ("iconst_0", .pushInt 0), ("iconst_1", .pushInt 1),
    ("iconst_2", .pushInt 2), ("iconst_3", .pushInt 3), ("iconst_4", .pushInt 4),
    ("iconst_5", .pushInt 5),
    ("iload_0", .load .int 0), ("iload_1", .load .int 1), ("iload_2", .load .int 2),
    ("iload_3", .load .int 3), ("aload_0", .load .ref 0), ("aload_1", .load .ref 1),
    ("aload_2", .load .ref 2), ("aload_3", .load .ref 3),
    ("istore_0", .store .int 0), ("istore_1", .store .int 1), ("istore_2", .store .int 2),
    ("istore_3", .store .int 3), ("astore_0", .store .ref 0), ("astore_1", .store .ref 1),
    ("astore_2", .store .ref 2), ("astore_3", .store .ref 3),
    ("iadd", .arith .add), ("isub", .arith .sub), ("imul", .arith .mul), ("idiv", .arith .div),
    ("iand", .and), ("ixor", .xor), ("arraylength", .arrayLength),
    ("iaload", .arrayLoad .int), ("baload", .arrayLoad .boolean), ("aaload", .arrayLoad .ref),
    ("iastore", .arrayStore .int), ("bastore", .arrayStore .boolean),
    ("aastore", .arrayStore .ref), ("pop", .pop), ("return", .ret none),
    ("ireturn", .ret (some .int)), ("areturn", .ret (some .ref))]

/-- The instructions with an operand, and how the operand is read. -/
def operandReaders : List (String × (List Char → Option Instr)) :=
  [("bipush", readConstant (-128) 127), ("sipush", readConstant (-32768) 32767),
    ("ldc", readClassConstant),
    ("iload", fun text => (readNat text).map (.load .int)),
    ("aload", fun text => (readNat text).map (.load .ref)),
    ("istore", fun text => (readNat text).map (.store .int)),
    ("astore", fun text => (readNat text).map (.store .ref)),
    ("iinc", readIncrement),
    ("goto", fun text => (readWord text).map .goto),
    ("iflt", fun text => (readWord text).map (.branch .less)),
    ("ifle", fun text => (readWord text).map (.branch .lessEqual)),
    ("ifgt", fun text => (readWord text).map (.branch .greater)),
    ("ifge", fun text => (readWord text).map (.branch .greaterEqual)),
    ("ifeq", fun text => (readWord text).map (.branch .equal)),
    ("ifne", fun text => (readWord text).map (.branch .notEqual)),
    ("new", fun text => (readWord text).map .new), ("newarray", readPrimitive),
    ("anewarray", fun text => (readWord text).map fun path => .newArray (.object path)),
    ("getfield", readFieldOperand .getField), ("putfield", readFieldOperand .putField),
    ("invokestatic", readMethodOperand .static), ("invokevirtual", readMethodOperand .virtual),
    ("invokespecial", readMethodOperand .special)]

/-- An instruction. -/
def readInstr (text : List Char) : Option Instr :=
  if text.all (fun char => !isBlank char) then loneInstrs.lookup (String.ofList text)
  else do (← operandReaders.lookup (String.ofList (firstWord text))) (afterWord text)

/-- Whether a text is one word that ends with a colon. -/
def isLabelText (text : List Char) : Bool :=
  text.all (fun char => !isBlank char) && text.getLast? == some ':'

/-- A line. Blanks at its start do not count. -/
def readLine (text : String) : Option (Line Instr) :=
  let chars := text.toList.dropWhile isBlank
  if isLabelText chars then (readWord chars.dropLast).map .label
  else (readInstr chars).map .instr

/-- Lines one after the other. -/
def readLines (texts : List String) : Option (List (Line Instr)) := texts.mapM readLine

end ClassCompiler.StackCode
