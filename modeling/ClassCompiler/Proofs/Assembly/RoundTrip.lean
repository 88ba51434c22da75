import ClassCompiler.Proofs.Assembly.Reader

/-!
# Written stack code can be read

Names without separators and paths are read as they were written, and so is every
line: its written form determines the instruction. Nothing is asked of string
constants, whose quotes keep them apart from the rest of the line.
-/

namespace ClassCompiler.StackCode

/-! ## Names -/

/-- The characters of names are no blanks and no characters that separate names. -/
def isNameChar (char : Char) : Bool :=
  !isBlank char && !(['/', '(', ')', ';', ':', '"', '\n', '\r'].contains char)

/-- A name: not empty, and without separators. -/
def IsName (text : String) : Prop := text ≠ "" ∧ text.toList.all isNameChar = true

/-- A path: names with slashes between them. -/
def IsPath (text : String) : Prop :=
  text ≠ "" ∧ text.toList.all (fun char => char == '/' || isNameChar char) = true

instance (text : String) : Decidable (IsName text) :=
  inferInstanceAs (Decidable (text ≠ "" ∧ text.toList.all isNameChar = true))

instance (text : String) : Decidable (IsPath text) :=
  inferInstanceAs (Decidable (text ≠ "" ∧
    text.toList.all (fun char => char == '/' || isNameChar char) = true))

theorem IsName.of_mem {text : String} (isName : IsName text) {char : Char}
    (member : char ∈ text.toList) : isNameChar char = true :=
  List.all_eq_true.mp isName.2 char member

theorem IsPath.of_mem {text : String} (isPath : IsPath text) {char : Char}
    (member : char ∈ text.toList) : char = '/' ∨ isNameChar char = true := by
  simpa using List.all_eq_true.mp isPath.2 char member

theorem IsName.isPath {text : String} (isName : IsName text) : IsPath text := by
  refine ⟨isName.1, List.all_eq_true.mpr fun char member => ?_⟩
  rw [isName.of_mem member, Bool.or_true]

theorem IsName.notMem {text : String} (isName : IsName text) {char : Char}
    (separates : isNameChar char = false) : char ∉ text.toList := by
  intro member
  rw [isName.of_mem member] at separates
  cases separates

theorem IsPath.notMem {text : String} (isPath : IsPath text) {char : Char}
    (separates : isNameChar char = false) (notSlash : char ≠ '/') : char ∉ text.toList := by
  intro member
  rcases isPath.of_mem member with isSlash | isName
  · exact notSlash isSlash
  · rw [isName] at separates
    cases separates

theorem IsPath.noBlank {text : String} (isPath : IsPath text) :
    ∀ char ∈ text.toList, (!isBlank char) = true := by
  intro char member
  cases blank : isBlank char with
  | false => rfl
  | true =>
      rcases isPath.of_mem member with rfl | isName
      · cases blank
      · simp [isNameChar, blank] at isName

theorem IsName.noBlank {text : String} (isName : IsName text) :
    ∀ char ∈ text.toList, (!isBlank char) = true :=
  isName.isPath.noBlank

/-! ## Scanning -/

theorem takeWhile_ne_append {stop : Char} {text : List Char} (absent : stop ∉ text)
    (rest : List Char) : (text ++ stop :: rest).takeWhile (· ≠ stop) = text := by
  rw [List.takeWhile_append_of_pos]
  · simp
  · intro char member
    rw [decide_eq_true_eq]
    rintro rfl
    exact absent member

theorem dropWhile_ne_append {stop : Char} {text : List Char} (absent : stop ∉ text)
    (rest : List Char) : (text ++ stop :: rest).dropWhile (· ≠ stop) = stop :: rest := by
  rw [List.dropWhile_append_of_pos]
  · simp
  · intro char member
    rw [decide_eq_true_eq]
    rintro rfl
    exact absent member

theorem firstWord_append {word : List Char} (noBlank : ∀ char ∈ word, (!isBlank char) = true)
    (rest : List Char) : firstWord (word ++ ' ' :: rest) = word := by
  rw [firstWord, List.takeWhile_append_of_pos noBlank]
  simp [isBlank]

theorem afterWord_append {word : List Char} (noBlank : ∀ char ∈ word, (!isBlank char) = true)
    (rest : List Char) : afterWord (word ++ ' ' :: rest) = rest := by
  rw [afterWord, List.dropWhile_append_of_pos noBlank]
  simp [isBlank]

theorem readWord_of_isPath {text : String} (isPath : IsPath text) :
    readWord text.toList = some text := by
  have nonempty : text.toList ≠ [] := by simpa using isPath.1
  rw [readWord, if_pos ⟨nonempty, List.all_eq_true.mpr isPath.noBlank⟩, String.ofList_toList]

theorem readMember_append {member : String} (isName : IsName member) (owner : String) :
    readMember (owner.toList ++ '/' :: member.toList) = some (owner, member) := by
  have absent : '/' ∉ member.toList.reverse := by
    rw [List.mem_reverse]
    exact isName.notMem rfl
  have reversed : (owner.toList ++ '/' :: member.toList).reverse =
      member.toList.reverse ++ '/' :: owner.toList.reverse := by simp
  rw [readMember, reversed, takeWhile_ne_append absent, dropWhile_ne_append absent]
  simp

/-! ## Numbers -/

theorem readNat_repr (number : Nat) : readNat (toString number).toList = some number := by
  rw [Nat.toString_eq_ofList_toDigits, String.toList_ofList, readNat, if_pos,
    Nat.ofDigitChars_ten_toDigits]
  refine ⟨Nat.toDigits_ne_nil, List.all_eq_true.mpr fun char member => ?_⟩
  exact Nat.isDigit_of_mem_toDigits (by decide) (by decide) member

theorem isDigit_of_mem_toString {number : Nat} {char : Char}
    (member : char ∈ (toString number).toList) : char.isDigit = true := by
  rw [Nat.toString_eq_ofList_toDigits, String.toList_ofList] at member
  exact Nat.isDigit_of_mem_toDigits (by decide) (by decide) member

theorem readInt_repr (number : Int) : readInt (toString number).toList = some number := by
  cases number with
  | ofNat number =>
      have read := readNat_repr number
      have textEq : toString (Int.ofNat number) = toString number := rfl
      rw [textEq]
      cases digits : (toString number).toList with
      | nil =>
          rw [digits] at read
          cases read
      | cons first rest =>
          have isDigit := isDigit_of_mem_toString (digits ▸ List.mem_cons_self)
          have notMinus : first ≠ '-' := by
            rintro rfl
            cases isDigit
          rw [digits] at read
          simp [readInt, notMinus, read]
  | negSucc number =>
      have textEq : toString (Int.negSucc number) = "-" ++ toString (number + 1) := rfl
      have read : readInt ('-' :: (toString (number + 1)).toList) = some (Int.negSucc number) := by
        rw [readInt, readNat_repr]
        rfl
      rw [textEq, String.toList_append]
      exact read

theorem noBlank_toString (number : Nat) :
    ∀ char ∈ (toString number).toList, (!isBlank char) = true := by
  intro char member
  have isDigit := isDigit_of_mem_toString member
  cases blank : isBlank char with
  | false => rfl
  | true =>
      rw [isBlank, Bool.or_eq_true, beq_iff_eq, beq_iff_eq] at blank
      rcases blank with rfl | rfl
      · cases isDigit
      · cases isDigit

theorem readRange_repr {least most number : Int} (lower : least ≤ number) (upper : number ≤ most) :
    readRange least most (toString number).toList = some number := by
  rw [readRange, readInt_repr]
  simp [lower, upper]

/-! ## Descriptors -/

/-- A descriptor whose paths can be read. -/
def Descriptor.IsReadable : Descriptor → Prop
  | .object path => IsPath path
  | .array elem => elem.IsReadable
  | _ => True

/-- A method descriptor whose paths can be read. -/
def MethodDescriptor.IsReadable (descriptor : MethodDescriptor) : Prop :=
  (∀ param ∈ descriptor.params, param.IsReadable) ∧ descriptor.result.IsReadable

theorem readDescriptor_text {descriptor : Descriptor} (readable : descriptor.IsReadable)
    (rest : List Char) :
    readDescriptor (descriptor.text.toList ++ rest) = some (descriptor, rest) := by
  induction descriptor with
  | int => rfl
  | boolean => rfl
  | void => rfl
  | array elem ih =>
      have textEq : (Descriptor.array elem).text.toList = '[' :: elem.text.toList := by
        simp [Descriptor.text]
      rw [textEq, List.cons_append, readDescriptor, ih readable]
      rfl
  | object path =>
      have absent : ';' ∉ path.toList := IsPath.notMem readable rfl (by decide)
      have textEq : (Descriptor.object path).text.toList ++ rest =
          'L' :: (path.toList ++ ';' :: rest) := by
        simp [Descriptor.text]
      rw [textEq, readDescriptor, takeWhile_ne_append absent, dropWhile_ne_append absent]
      simp

theorem readWholeDescriptor_text {descriptor : Descriptor} (readable : descriptor.IsReadable) :
    readWholeDescriptor descriptor.text.toList = some descriptor := by
  have read := readDescriptor_text readable []
  rw [List.append_nil] at read
  rw [readWholeDescriptor, read]

/-- A descriptor does not start with a closing parenthesis. -/
theorem head?_text_ne (descriptor : Descriptor) (rest : List Char) :
    (descriptor.text.toList ++ rest).head? ≠ some ')' := by
  cases descriptor <;> simp [Descriptor.text]

theorem readParams_of_readDescriptor {text rest : List Char} {param : Descriptor}
    (notEnd : text.head? ≠ some ')') (found : readDescriptor text = some (param, rest)) :
    readParams text =
      (readParams rest).map fun (params, last) => (param :: params, last) := by
  rw [readParams, if_neg notEnd]
  split
  · next missing =>
    rw [found] at missing
    cases missing
  · next other =>
    rw [found] at other
    cases other
    rfl

theorem readParams_text {params : List Descriptor}
    (readable : ∀ param ∈ params, param.IsReadable) (rest : List Char) :
    readParams ((String.join (params.map Descriptor.text)).toList ++ ')' :: rest) =
      some (params, rest) := by
  induction params with
  | nil =>
      rw [readParams]
      rfl
  | cons param params ih =>
      rw [List.forall_mem_cons] at readable
      rw [List.map_cons, String.join_cons, String.toList_append, List.append_assoc,
        readParams_of_readDescriptor (head?_text_ne param _) (readDescriptor_text readable.1 _),
        ih readable.2]
      rfl

/-- The written form of a method descriptor behind its opening parenthesis. -/
def MethodDescriptor.tailText (descriptor : MethodDescriptor) : List Char :=
  (String.join (descriptor.params.map Descriptor.text)).toList ++
    ')' :: descriptor.result.text.toList

theorem toList_text (descriptor : MethodDescriptor) :
    descriptor.text.toList = '(' :: descriptor.tailText := by
  simp only [MethodDescriptor.text, MethodDescriptor.tailText, String.toList_append,
    List.append_assoc]
  rfl

theorem readSignature_tailText {descriptor : MethodDescriptor}
    (readable : descriptor.IsReadable) :
    readSignature descriptor.tailText = some descriptor := by
  rw [readSignature, MethodDescriptor.tailText, readParams_text readable.1]
  simp only [Option.bind_eq_bind, Option.bind_some, readWholeDescriptor_text readable.2]
  rfl

/-! ## Instructions -/

/-- An instruction whose names can be read. -/
def Instr.IsReadable : Instr → Prop
  | .goto target | .branch _ target => IsName target
  | .new path | .newArray (.object path) => IsPath path
  | .getField owner field descriptor | .putField owner field descriptor =>
      IsPath owner ∧ IsName field ∧ descriptor.IsReadable
  | .invoke _ owner method descriptor =>
      IsPath owner ∧ IsName method ∧ descriptor.IsReadable
  | _ => True

theorem readInstr_lone {word : String} {instr : Instr}
    (noBlank : word.toList.all (fun char => !isBlank char) = true)
    (found : loneInstrs.lookup word = some instr) : readInstr word.toList = some instr := by
  rw [readInstr, if_pos noBlank, String.ofList_toList, found]

theorem readInstr_operand {start : String} (word : String) (startEq : start = word ++ " ")
    (noBlank : word.toList.all (fun char => !isBlank char) = true)
    {reader : List Char → Option Instr} (found : operandReaders.lookup word = some reader)
    (operand : String) : readInstr (start ++ operand).toList = reader operand.toList := by
  have textEq : (start ++ operand).toList = word.toList ++ ' ' :: operand.toList := by
    simp [startEq]
  have wordOnly := List.all_eq_true.mp noBlank
  have hasBlank :
      ¬(word.toList ++ ' ' :: operand.toList).all (fun char => !isBlank char) = true := by
    simp [isBlank]
  rw [textEq, readInstr, if_neg hasBlank, firstWord_append wordOnly, afterWord_append wordOnly,
    String.ofList_toList, found]
  rfl

theorem readInstr_constant {start : String} (word : String) {least most : Int}
    (startEq : start = word ++ " ")
    (noBlank : word.toList.all (fun char => !isBlank char) = true)
    (found : operandReaders.lookup word = some (readConstant least most)) {value : Int32}
    (lower : least ≤ value.toInt) (upper : value.toInt ≤ most) :
    readInstr (start ++ toString value.toInt).toList = some (.pushInt value) := by
  rw [readInstr_operand word startEq noBlank found, readConstant, readRange_repr lower upper]
  simp

theorem readInstr_smallConstant {value : Int32} (lower : 0 ≤ value.toInt)
    (upper : value.toInt ≤ 5) :
    readInstr ("iconst_" ++ toString value.toInt).toList = some (.pushInt value) := by
  have cases : value = 0 ∨ value = 1 ∨ value = 2 ∨ value = 3 ∨ value = 4 ∨ value = 5 := by
    simp only [← Int32.toInt_inj]
    have numbers : (0 : Int32).toInt = 0 ∧ (1 : Int32).toInt = 1 ∧ (2 : Int32).toInt = 2 ∧
        (3 : Int32).toInt = 3 ∧ (4 : Int32).toInt = 4 ∧ (5 : Int32).toInt = 5 := by decide
    omega
  rcases cases with rfl | rfl | rfl | rfl | rfl | rfl <;> exact readInstr_lone (by decide) rfl

theorem head?_toString_ne (number : Int) : (toString number).toList.head? ≠ some '"' := by
  intro isQuote
  rcases List.head?_eq_some_iff.mp isQuote with ⟨rest, quoted⟩
  have read := readInt_repr number
  rw [quoted] at read
  cases read

theorem readClassConstant_of_ne {text : List Char} (notQuote : text.head? ≠ some '"') :
    readClassConstant text = readConstant (-2147483648) 2147483647 text := by
  cases text with
  | nil => rfl
  | cons first rest =>
      have differs : first ≠ '"' := by simpa using notQuote
      simp [readClassConstant, differs]

/-- The shortest form of a constant is read as the constant. -/
theorem readInstr_pushInt (value : Int32) :
    readInstr (pushIntText value.toInt).toList = some (.pushInt value) := by
  rw [pushIntText]
  split
  · next isMinusOne =>
    have valueEq : value = -1 := Int32.toInt_inj.mp (isMinusOne.trans rfl)
    subst valueEq
    exact readInstr_lone (by decide) rfl
  split
  · next small => exact readInstr_smallConstant small.1 small.2
  split
  · next byte => exact readInstr_constant "bipush" (by decide) (by decide) rfl byte.1 byte.2
  split
  · next short => exact readInstr_constant "sipush" (by decide) (by decide) rfl short.1 short.2
  · have lower : -2147483648 ≤ value.toInt := Int32.le_toInt value
    have upper : value.toInt ≤ 2147483647 := Int32.toInt_le value
    rw [readInstr_operand "ldc" (by decide) (by decide) rfl,
      readClassConstant_of_ne (head?_toString_ne _), readConstant, readRange_repr lower upper]
    simp

theorem readInstr_pushString (value : String) :
    readInstr ("ldc " ++ Text.quoted value).toList = some (.pushString value) := by
  have textEq : (Text.quoted value).toList =
      '"' :: ((String.join (value.toList.map Text.escapeChar)).toList ++ ['"']) := by
    simp only [Text.quoted, String.toList_append, List.append_assoc]
    rfl
  rw [readInstr_operand "ldc" (by decide) (by decide) rfl, textEq, readClassConstant,
    Text.readQuoted_escaped]
  simp

/-- The form of a slot access is read as the access. -/
theorem readInstr_slot {make : Nat → Instr} (word : String)
    (noBlank : word.toList.all (fun char => !isBlank char) = true)
    (found : operandReaders.lookup word = some fun text => (readNat text).map make)
    (first : ∀ slot ≤ 3, readInstr (word ++ "_" ++ toString slot).toList = some (make slot))
    (slot : Nat) : readInstr (slotText word slot).toList = some (make slot) := by
  rw [slotText]
  split
  · next small => exact first slot small
  · rw [readInstr_operand word rfl noBlank found, readNat_repr]
    rfl

theorem readInstr_load (category : Category) (slot : Nat) :
    readInstr (slotText (category.letter ++ "load") slot).toList = some (.load category slot) := by
  cases category with
  | int => exact readInstr_slot "iload" (by decide) rfl (by decide) slot
  | ref => exact readInstr_slot "aload" (by decide) rfl (by decide) slot

theorem readInstr_store (category : Category) (slot : Nat) :
    readInstr (slotText (category.letter ++ "store") slot).toList =
      some (.store category slot) := by
  cases category with
  | int => exact readInstr_slot "istore" (by decide) rfl (by decide) slot
  | ref => exact readInstr_slot "astore" (by decide) rfl (by decide) slot

theorem readInstr_increment (slot : Nat) (delta : Int8) :
    readInstr ("iinc " ++ toString slot ++ " " ++ toString delta.toInt).toList =
      some (.increment slot delta) := by
  have lower : -128 ≤ delta.toInt := Int8.le_toInt delta
  have upper : delta.toInt ≤ 127 := Int8.toInt_le delta
  have textEq : "iinc " ++ toString slot ++ " " ++ toString delta.toInt =
      "iinc " ++ (toString slot ++ " " ++ toString delta.toInt) := by
    simp only [String.append_assoc]
  have operandEq : (toString slot ++ " " ++ toString delta.toInt).toList =
      (toString slot).toList ++ ' ' :: (toString delta.toInt).toList := by simp
  rw [textEq, readInstr_operand "iinc" (by decide) (by decide) rfl, operandEq, readIncrement,
    firstWord_append (noBlank_toString slot), afterWord_append (noBlank_toString slot),
    readNat_repr, readRange_repr lower upper]
  simp

theorem readInstr_field {start : String} {make : String → String → Descriptor → Instr}
    (word : String) (startEq : start = word ++ " ")
    (noBlank : word.toList.all (fun char => !isBlank char) = true)
    (found : operandReaders.lookup word = some (readFieldOperand make)) {owner field : String}
    (isPath : IsPath owner) (isName : IsName field) {descriptor : Descriptor}
    (readable : descriptor.IsReadable) :
    readInstr (start ++ owner ++ "/" ++ field ++ " " ++ descriptor.text).toList =
      some (make owner field descriptor) := by
  have textEq : start ++ owner ++ "/" ++ field ++ " " ++ descriptor.text =
      start ++ (owner ++ "/" ++ field ++ " " ++ descriptor.text) := by
    simp only [String.append_assoc]
  have operandEq : (owner ++ "/" ++ field ++ " " ++ descriptor.text).toList =
      (owner.toList ++ '/' :: field.toList) ++ ' ' :: descriptor.text.toList := by simp
  have memberOnly : ∀ char ∈ owner.toList ++ '/' :: field.toList, (!isBlank char) = true := by
    intro char member
    rw [List.mem_append, List.mem_cons] at member
    rcases member with inOwner | rfl | inField
    · exact isPath.noBlank char inOwner
    · rfl
    · exact isName.noBlank char inField
  rw [textEq, readInstr_operand word startEq noBlank found, operandEq, readFieldOperand,
    firstWord_append memberOnly, afterWord_append memberOnly, readMember_append isName,
    readWholeDescriptor_text readable]
  rfl

theorem readInstr_invoke (mode : ThreeAddress.InvokeMode) {owner method : String}
    (isPath : IsPath owner) (isName : IsName method) {descriptor : MethodDescriptor}
    (readable : descriptor.IsReadable) :
    readInstr (mode.keyword ++ " " ++ owner ++ "/" ++ method ++ descriptor.text).toList =
      some (.invoke mode owner method descriptor) := by
  have textEq : mode.keyword ++ " " ++ owner ++ "/" ++ method ++ descriptor.text =
      mode.keyword ++ " " ++ (owner ++ "/" ++ method ++ descriptor.text) := by
    simp only [String.append_assoc]
  have operandEq : (owner ++ "/" ++ method ++ descriptor.text).toList =
      (owner.toList ++ '/' :: method.toList) ++ '(' :: descriptor.tailText := by
    simp [toList_text]
  have absent : '(' ∉ owner.toList ++ '/' :: method.toList := by
    rw [List.mem_append, List.mem_cons, not_or, not_or]
    exact ⟨isPath.notMem rfl (by decide), by decide, isName.notMem rfl⟩
  have noBlank : mode.keyword.toList.all (fun char => !isBlank char) = true := by
    cases mode <;> decide
  have found : operandReaders.lookup mode.keyword = some (readMethodOperand mode) := by
    cases mode <;> rfl
  rw [textEq, readInstr_operand mode.keyword rfl noBlank found, operandEq, readMethodOperand,
    takeWhile_ne_append absent, dropWhile_ne_append absent, readMember_append isName,
    List.tail_cons, readSignature_tailText readable]
  rfl

/-- The written form of an instruction is read as the instruction. -/
theorem readInstr_text {instr : Instr} (readable : instr.IsReadable) :
    readInstr instr.text.toList = some instr := by
  have named {start : String} {make : String → Instr} (word : String)
      (startEq : start = word ++ " ")
      (noBlank : word.toList.all (fun char => !isBlank char) = true)
      (found : operandReaders.lookup word = some fun text => (readWord text).map make)
      {name : String} (isPath : IsPath name) :
      readInstr (start ++ name).toList = some (make name) := by
    rw [readInstr_operand word startEq noBlank found, readWord_of_isPath isPath]
    rfl
  cases instr with
  | pushInt value => exact readInstr_pushInt value
  | pushString value => exact readInstr_pushString value
  | load category slot => exact readInstr_load category slot
  | store category slot => exact readInstr_store category slot
  | increment slot delta => exact readInstr_increment slot delta
  | arith op => cases op <;> exact readInstr_lone (by decide) rfl
  | and | xor => exact readInstr_lone (by decide) rfl
  | goto target => exact named "goto" (by decide) (by decide) rfl (IsName.isPath readable)
  | branch test target =>
      refine named (branchWord test) rfl ?_ ?_ (IsName.isPath readable)
      · cases test <;> decide
      · cases test <;> rfl
  | new path => exact named "new" (by decide) (by decide) rfl readable
  | newArray element =>
      cases element with
      | int => exact @readInstr_operand "newarray " "newarray" rfl (by decide) _ rfl "int"
      | boolean => exact @readInstr_operand "newarray " "newarray" rfl (by decide) _ rfl "boolean"
      | object path => exact named "anewarray" (by decide) (by decide) rfl readable
  | arrayLength => exact readInstr_lone (by decide) rfl
  | arrayLoad kind | arrayStore kind => cases kind <;> exact readInstr_lone (by decide) rfl
  | getField owner field descriptor =>
      exact readInstr_field "getfield" (by decide) (by decide) rfl readable.1 readable.2.1
        readable.2.2
  | putField owner field descriptor =>
      exact readInstr_field "putfield" (by decide) (by decide) rfl readable.1 readable.2.1
        readable.2.2
  | invoke mode owner method descriptor =>
      exact readInstr_invoke mode readable.1 readable.2.1 readable.2.2
  | pop => exact readInstr_lone (by decide) rfl
  | ret category =>
      cases category with
      | none => exact readInstr_lone (by decide) rfl
      | some category => cases category <;> exact readInstr_lone (by decide) rfl

/-! ## Lines -/

/-- A line whose names can be read. -/
def Line.IsReadable : Line Instr → Prop
  | .instr op => op.IsReadable
  | .label name => IsName name

/-- Blanks in front of an instruction. -/
def IsIndent (indent : String) : Prop := indent.toList.all isBlank = true

instance (indent : String) : Decidable (IsIndent indent) :=
  inferInstanceAs (Decidable (indent.toList.all isBlank = true))

/-- What can be read as an instruction does not start with a blank. -/
theorem dropWhile_isBlank_of_readInstr {text : List Char} {instr : Instr}
    (read : readInstr text = some instr) : text.dropWhile isBlank = text := by
  cases text with
  | nil => rfl
  | cons first rest =>
      cases blank : isBlank first with
      | false => simp [blank]
      | true =>
          -- The first word would be empty, and no instruction has an empty word.
          simp only [readInstr, List.all_cons, blank, firstWord, List.takeWhile_cons] at read
          cases read

/-- What can be read as an instruction is no label. -/
theorem isLabelText_of_readInstr {text : List Char} {instr : Instr}
    (read : readInstr text = some instr) : isLabelText text = false := by
  rw [isLabelText, Bool.and_eq_false_iff]
  cases oneWord : text.all fun char => !isBlank char with
  | false => exact .inl rfl
  | true =>
      have noColon : ∀ entry ∈ loneInstrs, entry.1.toList.getLast? ≠ some ':' := by decide
      rw [readInstr, if_pos oneWord] at read
      rcases List.lookup_eq_some_iff.mp read with ⟨before, behind, tableEq, _⟩
      have lastChar := noColon (String.ofList text, instr) (by rw [tableEq]; simp)
      exact .inr (by simpa using lastChar)

theorem readLine_instr {indent : String} (isIndent : IsIndent indent) {instr : Instr}
    (readable : instr.IsReadable) : readLine (indent ++ instr.text) = some (.instr instr) := by
  have read := readInstr_text readable
  have chars : (indent ++ instr.text).toList.dropWhile isBlank = instr.text.toList := by
    rw [String.toList_append, List.dropWhile_append_of_pos (List.all_eq_true.mp isIndent),
      dropWhile_isBlank_of_readInstr read]
  simp only [readLine, chars, isLabelText_of_readInstr read, read]
  rfl

theorem readLine_label {name : String} (isName : IsName name) :
    readLine (name ++ ":") = some (.label name) := by
  have textEq : (name ++ ":").toList = name.toList ++ [':'] := by simp
  have oneWord : (name.toList ++ [':']).all (fun char => !isBlank char) = true := by
    rw [List.all_append, List.all_eq_true.mpr isName.noBlank]
    rfl
  have chars : (name ++ ":").toList.dropWhile isBlank = name.toList ++ [':'] := by
    rw [textEq, List.dropWhile_eq_self_iff]
    intro nonempty
    simpa using List.all_eq_true.mp oneWord _ (List.getElem_mem nonempty)
  have isLabel : isLabelText (name.toList ++ [':']) = true := by
    rw [isLabelText, oneWord]
    simp
  simp only [readLine, chars, isLabel, if_true, List.dropLast_concat,
    readWord_of_isPath isName.isPath]
  rfl

/-- The written form of a line is read as the line. -/
theorem readLine_text {indent : String} (isIndent : IsIndent indent) {line : Line Instr}
    (readable : line.IsReadable) : readLine (line.text indent Instr.text) = some line := by
  cases line with
  | instr op => exact readLine_instr isIndent readable
  | label name => exact readLine_label readable

/-- Written lines are read as the lines. -/
theorem readLines_text {indent : String} (isIndent : IsIndent indent) {lines : List (Line Instr)}
    (readable : ∀ line ∈ lines, line.IsReadable) :
    readLines (lines.map (Line.text indent Instr.text)) = some lines := by
  induction lines with
  | nil => rfl
  | cons line rest ih =>
      rw [List.forall_mem_cons] at readable
      rw [readLines] at ih ⊢
      rw [List.map_cons, List.mapM_cons, readLine_text isIndent readable.1,
        ih readable.2]
      rfl

end ClassCompiler.StackCode
