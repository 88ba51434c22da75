import ClassCompiler.Proofs.Assembly.Emitted
import ClassCompiler.Proofs.Assembly.Lines
import ClassCompiler.Proofs.Assembly.Literals
import ClassCompiler.Proofs.Emission.Classes

/-!
# Reading listings

A listing is read line by line: a line with the word `.method` begins a block, two limits
and the code follow, and a line with the word `.end` ends it. If the names of a class are
names, then the blocks that are read from its written form are those of its methods, with
their headers, limits and lines.
-/

namespace ClassCompiler.StackCode

open ThreeAddress (ClassUnit)

/-! ## Blocks -/

/-- A method as it stands in a listing. -/
structure MethodBlock where
  header : String
  stackLimit : Nat
  localLimit : Nat
  lines : List (Line Instr)
deriving DecidableEq, Repr

/-- The first word of a line. -/
def lineWord (line : String) : String :=
  String.ofList (firstWord (line.toList.dropWhile isBlank))

/-- The lines before the first header, and each header with the lines up to the next one. -/
def splitBlocks : List String → List String × List (String × List String)
  | [] => ([], [])
  | line :: rest =>
      let later := splitBlocks rest
      if lineWord line = ".method" then ([], (line, later.1) :: later.2)
      else (line :: later.1, later.2)

/-- A limit of a method. -/
def readLimit (kind line : String) : Option Nat :=
  let operands := afterWord (line.toList.dropWhile isBlank)
  if lineWord line = ".limit" ∧ firstWord operands = kind.toList then readNat (afterWord operands)
  else none

/-- Empty lines and comments. -/
def isIdle (line : String) : Bool := lineWord line ∈ ["", ";"]

/-- The block of a header and the lines behind it. -/
def readBlock (part : String × List String) : Option MethodBlock :=
  match part.2.takeWhile (lineWord · ≠ ".end"), part.2.dropWhile (lineWord · ≠ ".end") with
  | stack :: locals :: code, _ :: behind =>
      if behind.all isIdle then do
        return ⟨part.1, ← readLimit "stack" stack, ← readLimit "locals" locals, ← readLines code⟩
      else none
  | _, _ => none

/-- The lines before all blocks: they name the class, its parent and its fields. -/
def isPreamble (line : String) : Bool :=
  isIdle line || lineWord line ∈ [".class", ".super", ".field"]

/-- The blocks of the lines of a listing. -/
def readBlocks (lines : List String) : Option (List MethodBlock) :=
  let parts := splitBlocks lines
  if parts.1.all isPreamble then parts.2.mapM readBlock else none

/-- The blocks of a listing. -/
def readListing (text : String) : Option (List MethodBlock) := readBlocks (linesOf text)

/-- The block of a method in a listing. -/
def MethodCode.block (code : MethodCode) : MethodBlock :=
  ⟨code.header.text, code.stackLimit, code.localLimit, code.lines⟩

/-! ## Words of lines -/

/-- A word: not empty, and without blanks. -/
def IsLineWord (word : String) : Prop :=
  word ≠ "" ∧ ∀ char ∈ word.toList, (!isBlank char) = true

instance (word : String) : Decidable (IsLineWord word) :=
  decidable_of_iff (word ≠ "" ∧ word.toList.all (fun char => !isBlank char) = true)
    (and_congr_right' List.all_eq_true)

section

variable {indent word : String}

/-- Blanks before a word do not count. -/
theorem dropWhile_isBlank_indent (isIndent : IsIndent indent) (isWord : IsLineWord word)
    (rest : List Char) :
    (indent.toList ++ (word.toList ++ rest)).dropWhile isBlank = word.toList ++ rest := by
  rw [List.dropWhile_append_of_pos (List.all_eq_true.mp isIndent)]
  obtain ⟨first, later, charsEq⟩ :=
    List.exists_cons_of_ne_nil (mt String.toList_eq_nil_iff.mp isWord.1)
  have notBlank := isWord.2 first (by rw [charsEq]; exact List.mem_cons_self)
  rw [charsEq, List.cons_append, List.dropWhile_cons_of_neg (by simpa using notBlank)]

theorem lineWord_append (isIndent : IsIndent indent) (isWord : IsLineWord word) (rest : String) :
    lineWord (indent ++ (word ++ (" " ++ rest))) = word := by
  have charsEq : (indent ++ (word ++ (" " ++ rest))).toList =
      indent.toList ++ (word.toList ++ ' ' :: rest.toList) := by simp
  rw [lineWord, charsEq, dropWhile_isBlank_indent isIndent isWord, firstWord_append isWord.2,
    String.ofList_toList]

end

/-- The words of lines that are no code. -/
def directives : List String :=
  ["", ";", ".class", ".super", ".field", ".method", ".limit", ".end"]

/-- No line of code has the word of a directive. -/
theorem lineWord_of_readLine {text : String} {line : Line Instr}
    (read : readLine text = some line) :
    lineWord text ∉ directives := by
  have alone {chars : List Char} (oneWord : chars.all (fun char => !isBlank char) = true) :
      firstWord chars = chars := List.takeWhile_eq_self_iff.mpr (List.all_eq_true.mp oneWord)
  rw [lineWord]
  unfold readLine at read
  generalize text.toList.dropWhile isBlank = chars at read
  dsimp only at read
  split at read
  · next isLabel =>
    obtain ⟨oneWord, colon⟩ := Bool.and_eq_true_iff.mp isLabel
    have noColon : ∀ word ∈ directives, word.toList.getLast? ≠ some ':' := by decide
    rw [alone oneWord]
    intro member
    refine noColon _ member ?_
    simpa using colon
  · obtain ⟨instr, readInstr, _⟩ := Option.map_eq_some_iff.mp read
    unfold StackCode.readInstr at readInstr
    split at readInstr
    · next oneWord =>
      have noDirective : ∀ entry ∈ loneInstrs, entry.1 ∉ directives := by decide
      obtain ⟨before, behind, tableEq, _⟩ := List.lookup_eq_some_iff.mp readInstr
      rw [alone oneWord]
      exact noDirective (String.ofList chars, instr) (by rw [tableEq]; simp)
    · have noDirective : ∀ entry ∈ operandReaders, entry.1 ∉ directives := by
        simp [operandReaders, directives]
      obtain ⟨reader, found, _⟩ := Option.bind_eq_some_iff.mp readInstr
      obtain ⟨before, behind, tableEq, _⟩ := List.lookup_eq_some_iff.mp found
      exact noDirective (String.ofList (firstWord chars), reader) (by rw [tableEq]; simp)

theorem lineWord_header (header : Header) : lineWord header.text = ".method" := by
  have word (rest : String) : lineWord (".method " ++ rest) = ".method" := by
    have textEq : ".method " ++ rest = "" ++ (".method" ++ (" " ++ rest)) := by
      rw [String.empty_append, ← String.append_assoc]
      rfl
    rw [textEq]
    exact lineWord_append (by decide) (by decide +kernel) rest
  cases header with
  | constructor => decide +kernel
  | main => decide +kernel
  | method isPublic isStatic name descriptor =>
      simp only [Header.text, String.append_assoc]
      exact word _

theorem readLine_eq_none {line word : String} (wordEq : lineWord line = word)
    (isDirective : word ∈ directives) : readLine line = none := by
  subst wordEq
  cases read : readLine line with
  | none => rfl
  | some _ => exact absurd isDirective (lineWord_of_readLine read)

/-! ## Reading written blocks -/

section

variable {indent : String} (isIndent : IsIndent indent)
include isIndent

/-- A written limit is read as the limit. -/
theorem readLimit_text {kind : String} (isWord : IsLineWord kind) (limit : Nat) :
    readLimit kind (indent ++ (".limit" ++ (" " ++ (kind ++ (" " ++ toString limit))))) =
      some limit := by
  have charsEq : (indent ++ (".limit" ++ (" " ++ (kind ++ (" " ++ toString limit))))).toList =
      indent.toList ++
        (".limit".toList ++ ' ' :: (kind.toList ++ ' ' :: (toString limit).toList)) := by
    simp
  have isLimit : IsLineWord ".limit" := by decide +kernel
  rw [readLimit, lineWord_append isIndent isLimit, charsEq,
    dropWhile_isBlank_indent isIndent isLimit, afterWord_append isLimit.2,
    firstWord_append isWord.2, afterWord_append isWord.2, if_pos ⟨rfl, rfl⟩, readNat_repr]

theorem lineWord_limit (code : MethodCode) :
    lineWord (indent ++ (".limit stack " ++ toString code.stackLimit)) = ".limit" ∧
      lineWord (indent ++ (".limit locals " ++ toString code.localLimit)) = ".limit" := by
  have ofKind {start kind : String} (startEq : start = ".limit" ++ (" " ++ kind)) (rest : String) :
      lineWord (indent ++ (start ++ rest)) = ".limit" := by
    rw [startEq, String.append_assoc, String.append_assoc]
    exact lineWord_append isIndent (by decide +kernel) _
  exact ⟨ofKind (by decide : _ = _ ++ (_ ++ "stack ")) _,
    ofKind (by decide : _ = _ ++ (_ ++ "locals ")) _⟩

/-- No line inside a method begins or ends one. -/
theorem lineWord_of_mem_innerLines {code : MethodCode}
    (readable : ∀ line ∈ code.lines, line.IsReadable) :
    ∀ line ∈ code.innerLines indent, lineWord line ≠ ".method" ∧ lineWord line ≠ ".end" := by
  rw [MethodCode.innerLines, List.forall_mem_cons, List.forall_mem_cons, List.forall_mem_map,
    (lineWord_limit isIndent code).1, (lineWord_limit isIndent code).2]
  refine ⟨by decide, by decide, fun line member => ?_⟩
  have noDirective := lineWord_of_readLine (readLine_text isIndent (readable line member))
  exact ⟨fun same => noDirective (same ▸ by decide), fun same => noDirective (same ▸ by decide)⟩

/-- A written method is read as its block, whatever empty lines and comments follow. -/
theorem readBlock_innerLines {code : MethodCode} (readable : ∀ line ∈ code.lines, line.IsReadable)
    {behind : List String} (idle : behind.all isIdle = true) :
    readBlock (code.header.text, code.innerLines indent ++ ".end method" :: behind) =
      some code.block := by
  have goesOn : ∀ line ∈ code.innerLines indent, decide (lineWord line ≠ ".end") = true :=
    fun line member => decide_eq_true (lineWord_of_mem_innerLines isIndent readable line member).2
  have isEnd : decide (lineWord ".end method" ≠ ".end") = false := by decide +kernel
  have stackEq : ".limit stack " ++ toString code.stackLimit =
      ".limit" ++ (" " ++ ("stack" ++ (" " ++ toString code.stackLimit))) := by
    simp only [← String.append_assoc]
    rfl
  have localsEq : ".limit locals " ++ toString code.localLimit =
      ".limit" ++ (" " ++ ("locals" ++ (" " ++ toString code.localLimit))) := by
    simp only [← String.append_assoc]
    rfl
  rw [readBlock, List.takeWhile_append_of_pos goesOn, List.dropWhile_append_of_pos goesOn,
    List.takeWhile_cons_of_neg (by rw [isEnd]; decide),
    List.dropWhile_cons_of_neg (by rw [isEnd]; decide), List.append_nil]
  simp only [MethodCode.innerLines, idle, if_true, stackEq, localsEq,
    readLimit_text isIndent (by decide +kernel : IsLineWord "stack"),
    readLimit_text isIndent (by decide +kernel : IsLineWord "locals"),
    readLines_text isIndent readable]
  rfl

end

theorem splitBlocks_append {lines : List String}
    (noHeader : ∀ line ∈ lines, lineWord line ≠ ".method") (rest : List String) :
    splitBlocks (lines ++ rest) = (lines ++ (splitBlocks rest).1, (splitBlocks rest).2) := by
  induction lines with
  | nil => rfl
  | cons line lines ih =>
      rw [List.forall_mem_cons] at noHeader
      simp only [List.cons_append, splitBlocks, ih noHeader.2, if_neg noHeader.1]

/-- Lines are read as blocks, with empty lines and comments before the first one. -/
def ReadAsBlocks (lines : List String) (blocks : List MethodBlock) : Prop :=
  (splitBlocks lines).1.all isIdle = true ∧
    (splitBlocks lines).2.mapM readBlock = some blocks

theorem ReadAsBlocks.idle {lines rest : List String} {blocks : List MethodBlock}
    (reads : ReadAsBlocks rest blocks) (idle : lines.all isIdle = true) :
    ReadAsBlocks (lines ++ rest) blocks := by
  have noHeader : ∀ line ∈ lines, lineWord line ≠ ".method" := by
    intro line member isHeader
    have isIdle := List.all_eq_true.mp idle line member
    rw [StackCode.isIdle, isHeader] at isIdle
    cases isIdle
  rw [ReadAsBlocks, splitBlocks_append noHeader, List.all_append, idle]
  exact reads

section

variable {layout : Layout} (isIndent : IsIndent layout.indent)
include isIndent

/-- A written method before other blocks. -/
theorem ReadAsBlocks.method {rest : List String} {blocks : List MethodBlock}
    (reads : ReadAsBlocks rest blocks) {code : MethodCode}
    (readable : ∀ line ∈ code.lines, line.IsReadable) :
    ReadAsBlocks (code.textLines layout ++ rest) (code.block :: blocks) := by
  have idle : List.all (if code.header = .constructor ∧ layout.comments then
      ["; default constructor"] else []) isIdle = true := by
    split <;> decide +kernel
  have noHeader : ∀ line ∈ code.innerLines layout.indent ++ [".end method"],
      lineWord line ≠ ".method" := by
    rw [List.forall_mem_append, List.forall_mem_singleton]
    exact ⟨fun line member => (lineWord_of_mem_innerLines isIndent readable line member).1,
      by decide +kernel⟩
  rw [MethodCode.textLines, List.append_assoc]
  refine ReadAsBlocks.idle ?_ idle
  rw [ReadAsBlocks, List.cons_append, splitBlocks, splitBlocks_append noHeader,
    if_pos (lineWord_header code.header), List.mapM_cons, List.append_assoc, List.singleton_append,
    readBlock_innerLines isIndent readable reads.1, reads.2]
  exact ⟨rfl, rfl⟩

/-- The written methods of a class are read as their blocks. -/
theorem readAsBlocks_joinGroups {codes : List MethodCode}
    (readable : ∀ code ∈ codes, ∀ line ∈ code.lines, line.IsReadable) :
    ReadAsBlocks (joinGroups (codes.map (MethodCode.textLines layout)) ++ [""])
      (codes.map MethodCode.block) := by
  have atEnd : ReadAsBlocks [""] [] := ⟨by decide +kernel, rfl⟩
  induction codes with
  | nil => exact atEnd
  | cons code rest ih =>
      obtain ⟨codeReadable, restReadable⟩ := List.forall_mem_cons.mp readable
      cases rest with
      | nil => exact atEnd.method isIndent codeReadable
      | cons other later =>
          have reads := (ih restReadable).idle (by decide +kernel : [""].all isIdle = true)
          have both := reads.method isIndent codeReadable
          rw [List.map_cons, List.map_cons, joinGroups, List.append_assoc]
          exact both

/-- The lines of a written method that can be read as code are its own. -/
theorem filterMap_readLine_textLines {code : MethodCode}
    (readable : ∀ line ∈ code.lines, line.IsReadable) :
    (code.textLines layout).filterMap readLine = code.lines := by
  have comment : List.filterMap readLine (if code.header = .constructor ∧ layout.comments then
      ["; default constructor"] else []) = [] := by
    split <;> decide +kernel
  have header := readLine_eq_none (lineWord_header code.header) (by decide)
  have stack := readLine_eq_none (lineWord_limit isIndent code).1 (by decide)
  have locals := readLine_eq_none (lineWord_limit isIndent code).2 (by decide)
  have atEnd : readLine ".end method" = none := by decide +kernel
  have lines : (code.lines.map (Line.text layout.indent Instr.text)).filterMap readLine =
      code.lines := by
    rw [List.filterMap_map]
    refine (List.filterMap_congr fun line member => ?_).trans List.filterMap_some
    exact readLine_text isIndent (readable line member)
  rw [MethodCode.textLines, MethodCode.innerLines, List.filterMap_append, comment, List.nil_append,
    List.filterMap_cons_none header, List.cons_append, List.filterMap_cons_none stack,
    List.cons_append, List.filterMap_cons_none locals, List.filterMap_append, lines,
    List.filterMap_cons_none atEnd, List.filterMap_nil, List.append_nil]

theorem filterMap_readLine_joinGroups {codes : List MethodCode}
    (readable : ∀ code ∈ codes, ∀ line ∈ code.lines, line.IsReadable) :
    (joinGroups (codes.map (MethodCode.textLines layout)) ++ [""]).filterMap readLine =
      codes.flatMap MethodCode.lines := by
  have blank : readLine "" = none := by decide +kernel
  rw [List.filterMap_append, List.filterMap_cons_none blank, List.filterMap_nil, List.append_nil]
  induction codes with
  | nil => rfl
  | cons code rest ih =>
      obtain ⟨codeReadable, restReadable⟩ := List.forall_mem_cons.mp readable
      have own := filterMap_readLine_textLines isIndent codeReadable
      cases rest with
      | nil => simpa [joinGroups] using own
      | cons other later =>
          rw [List.map_cons, List.map_cons, joinGroups, List.filterMap_append, own,
            List.filterMap_cons_none blank, List.flatMap_cons, ← ih restReadable, List.map_cons]

end

/-! ## Names without breaks -/

theorem IsPath.isUnbroken {text : String} (isPath : IsPath text) : IsUnbroken text :=
  isPath.notMem rfl (by decide)

theorem IsName.isUnbroken {text : String} (isName : IsName text) : IsUnbroken text :=
  isName.isPath.isUnbroken

theorem isUnbroken_of_isIndent {indent : String} (isIndent : IsIndent indent) :
    IsUnbroken indent := fun isBreak => by
  cases List.all_eq_true.mp isIndent _ isBreak

theorem Descriptor.IsReadable.isUnbroken {descriptor : Descriptor}
    (readable : descriptor.IsReadable) : IsUnbroken descriptor.text := by
  induction descriptor with
  | int | boolean | void => decide
  | object path =>
      simp only [Descriptor.text, isUnbroken_append]
      exact ⟨⟨by decide, IsPath.isUnbroken readable⟩, by decide⟩
  | array elem ih =>
      exact isUnbroken_append.mpr ⟨by decide, ih readable⟩

theorem MethodDescriptor.IsReadable.isUnbroken {descriptor : MethodDescriptor}
    (readable : descriptor.IsReadable) : IsUnbroken descriptor.text := by
  have joined {params : List Descriptor} (each : ∀ param ∈ params, param.IsReadable) :
      IsUnbroken (String.join (params.map Descriptor.text)) := by
    induction params with
    | nil => decide
    | cons param rest ih =>
        rw [List.forall_mem_cons] at each
        rw [List.map_cons, String.join_cons]
        exact isUnbroken_append.mpr ⟨each.1.isUnbroken, ih each.2⟩
  simp only [MethodDescriptor.text, isUnbroken_append]
  exact ⟨⟨⟨by decide, joined readable.1⟩, by decide⟩, readable.2.isUnbroken⟩

theorem isUnbroken_toString_int (number : Int) : IsUnbroken (toString number) := by
  cases number with
  | ofNat number => exact isUnbroken_toString number
  | negSucc number =>
      exact isUnbroken_append.mpr ⟨by decide, isUnbroken_toString (number + 1)⟩

theorem Instr.IsReadable.isUnbroken {instr : Instr} (readable : instr.IsReadable) :
    IsUnbroken instr.text := by
  cases instr with
  | pushInt value =>
      have number := isUnbroken_toString_int value.toInt
      simp only [Instr.text, pushIntText]
      split
      · decide
      · split
        · exact isUnbroken_append.mpr ⟨by decide, number⟩
        · split
          · exact isUnbroken_append.mpr ⟨by decide, number⟩
          · split <;> exact isUnbroken_append.mpr ⟨by decide, number⟩
  | pushString value =>
      exact isUnbroken_append.mpr ⟨by decide, (Text.isLiteral_quoted value).notMem⟩
  | load category slot | store category slot =>
      have number := isUnbroken_toString slot
      simp only [Instr.text, slotText]
      split <;> simp only [isUnbroken_append] <;> cases category <;>
        exact ⟨⟨by decide, by decide⟩, number⟩
  | increment slot delta =>
      simp only [Instr.text, isUnbroken_append]
      exact ⟨⟨⟨by decide, isUnbroken_toString slot⟩, by decide⟩, isUnbroken_toString_int _⟩
  | arith op => cases op <;> decide
  | goto target => exact isUnbroken_append.mpr ⟨by decide, IsName.isUnbroken readable⟩
  | branch test target =>
      refine isUnbroken_append.mpr ⟨?_, IsName.isUnbroken readable⟩
      cases test <;> decide
  | new path => exact isUnbroken_append.mpr ⟨by decide, IsPath.isUnbroken readable⟩
  | newArray element =>
      cases element with
      | object path => exact isUnbroken_append.mpr ⟨by decide, IsPath.isUnbroken readable⟩
      | _ => decide
  | getField owner field descriptor | putField owner field descriptor =>
      obtain ⟨isPath, isName, descriptorReadable⟩ := readable
      simp only [Instr.text, isUnbroken_append]
      exact ⟨⟨⟨⟨⟨by decide, isPath.isUnbroken⟩, by decide⟩, isName.isUnbroken⟩, by decide⟩,
        descriptorReadable.isUnbroken⟩
  | invoke mode owner method descriptor =>
      obtain ⟨isPath, isName, descriptorReadable⟩ := readable
      simp only [Instr.text, isUnbroken_append]
      refine ⟨⟨⟨⟨⟨?_, by decide⟩, isPath.isUnbroken⟩, by decide⟩, isName.isUnbroken⟩,
        descriptorReadable.isUnbroken⟩
      cases mode <;> decide
  | arrayLoad kind | arrayStore kind => cases kind <;> decide
  | ret category =>
      cases category with
      | none => decide
      | some category => cases category <;> decide
  | _ => decide

theorem Line.IsReadable.isUnbroken {line : Line Instr} (readable : line.IsReadable)
    {indent : String} (isIndent : IsIndent indent) :
    IsUnbroken (line.text indent Instr.text) := by
  cases line with
  | instr op =>
      exact isUnbroken_append.mpr
        ⟨isUnbroken_of_isIndent isIndent, Instr.IsReadable.isUnbroken readable⟩
  | label name => exact isUnbroken_append.mpr ⟨IsName.isUnbroken readable, by decide⟩

/-! ## Class files -/

/-- A class file whose names can be read. -/
structure ClassFile.IsReadable (file : ClassFile) : Prop where
  name : IsUnbroken file.name
  parent : IsUnbroken file.superPath
  fields : ∀ field ∈ file.fields, IsUnbroken field.1 ∧ IsUnbroken field.2.text
  headers : ∀ code ∈ file.methods, IsUnbroken code.header.text
  lines : ∀ code ∈ file.methods, ∀ line ∈ code.lines, line.IsReadable

/-- The lines before the methods name the class, its parent and its fields. -/
theorem isPreamble_of_mem_preamble {file : ClassFile} :
    ∀ line ∈ file.preamble, isPreamble line = true := by
  have directive (word tail : String) (isWord : IsLineWord word)
      (names : word ∈ [".class", ".super", ".field"]) {start : String}
      (startEq : start = word ++ (" " ++ tail)) (rest : String) :
      isPreamble (start ++ rest) = true := by
    have wordEq := lineWord_append (by decide : IsIndent "") isWord (tail ++ rest)
    have textEq : "" ++ (word ++ (" " ++ (tail ++ rest))) = start ++ rest := by
      simp only [startEq, String.empty_append, String.append_assoc]
    rw [textEq] at wordEq
    rw [isPreamble, wordEq, decide_eq_true names, Bool.or_true]
  have blank : isPreamble "" = true := by decide +kernel
  have blanks : ∀ line ∈ (if file.fields.isEmpty then [] else [""]), isPreamble line = true := by
    split <;> simp [blank]
  simp only [ClassFile.preamble, List.forall_mem_append, List.forall_mem_cons, List.forall_mem_map,
    String.append_assoc]
  exact ⟨⟨directive ".class" "public " (by decide +kernel) (by decide) (by decide) _,
    directive ".super" "" (by decide +kernel) (by decide) (by decide) _, blank, fun field _ =>
    directive ".field" "public '" (by decide +kernel) (by decide) (by decide) _⟩, blanks⟩

namespace ClassFile.IsReadable

variable {file : ClassFile} (readable : file.IsReadable) {layout : Layout}
  (isIndent : IsIndent layout.indent)
include readable isIndent

/-- Every line of a method is a line of the listing. -/
theorem isUnbroken_method {code : MethodCode} (member : code ∈ file.methods) :
    ∀ line ∈ code.textLines layout, IsUnbroken line := by
  have atIndent {text : String} (isText : IsUnbroken text) : IsUnbroken (layout.indent ++ text) :=
    isUnbroken_append.mpr ⟨isUnbroken_of_isIndent isIndent, isText⟩
  have comment : ∀ line ∈ (if code.header = .constructor ∧ layout.comments then
      ["; default constructor"] else []), IsUnbroken line := by
    split <;> simp [IsUnbroken]
  simp only [MethodCode.textLines, MethodCode.innerLines, List.forall_mem_append,
    List.forall_mem_cons, List.forall_mem_map]
  exact ⟨comment, readable.headers code member,
    ⟨atIndent (isUnbroken_append.mpr ⟨by decide, isUnbroken_toString _⟩),
      atIndent (isUnbroken_append.mpr ⟨by decide, isUnbroken_toString _⟩),
      fun line inCode => (readable.lines code member line inCode).isUnbroken isIndent⟩,
    by decide, by simp⟩

/-- The lines of the written class. -/
theorem linesOf_text : linesOf (file.text layout) = file.textLines layout ++ [""] := by
  have joined {groups : List (List String)}
      (each : ∀ group ∈ groups, ∀ line ∈ group, IsUnbroken line) :
      ∀ line ∈ joinGroups groups, IsUnbroken line := by
    fun_induction joinGroups with
    | case1 => simp
    | case2 group => exact List.forall_mem_singleton.mp each
    | case3 group other rest ih =>
        rw [List.forall_mem_cons] at each
        rw [List.forall_mem_append, List.forall_mem_cons]
        exact ⟨each.1, by decide, ih each.2⟩
  have blank : ∀ line ∈ (if file.fields.isEmpty then [] else [""]), IsUnbroken line := by
    split <;> simp [IsUnbroken]
  rw [ClassFile.text_eq_unlines]
  apply linesOf_unlines
  simp only [ClassFile.textLines, ClassFile.preamble, List.forall_mem_append, List.forall_mem_cons,
    List.forall_mem_map]
  refine ⟨⟨⟨?_, ?_, by decide, ?_⟩, blank⟩, joined ?_⟩
  · exact isUnbroken_append.mpr ⟨by decide, readable.name⟩
  · exact isUnbroken_append.mpr ⟨by decide, readable.parent⟩
  · intro field member
    simp only [isUnbroken_append]
    exact ⟨⟨⟨by decide, (readable.fields field member).1⟩, by decide⟩,
      (readable.fields field member).2⟩
  · rw [List.forall_mem_map]
    exact fun code member => readable.isUnbroken_method isIndent member

/-- The blocks that are read from a written class are those of its methods. -/
theorem readListing_text :
    readListing (file.text layout) = some (file.methods.map MethodCode.block) := by
  have noHeader : ∀ line ∈ file.preamble, lineWord line ≠ ".method" := by
    intro line member isHeader
    have isNamed := isPreamble_of_mem_preamble line member
    rw [isPreamble, isIdle, isHeader] at isNamed
    cases isNamed
  have reads := readAsBlocks_joinGroups isIndent readable.lines
  rw [readListing, readable.linesOf_text isIndent, ClassFile.textLines, readBlocks,
    List.append_assoc, splitBlocks_append noHeader]
  dsimp only
  rw [List.all_append, List.all_eq_true.mpr isPreamble_of_mem_preamble, Bool.true_and, if_pos,
    reads.2]
  refine List.all_eq_true.mpr fun line member => ?_
  rw [isPreamble, List.all_eq_true.mp reads.1 line member, Bool.true_or]

/-- The lines of a written class that can be read as code are those of its methods. -/
theorem filterMap_readLine_text :
    (linesOf (file.text layout)).filterMap readLine = file.methods.flatMap MethodCode.lines := by
  have ofPreamble : file.preamble.filterMap readLine = [] := by
    refine List.filterMap_eq_nil_iff.mpr fun line member => readLine_eq_none rfl ?_
    have isNamed := isPreamble_of_mem_preamble line member
    simp only [isPreamble, isIdle, Bool.or_eq_true, decide_eq_true_eq] at isNamed
    rcases isNamed with isIdle | isDirective
    · exact (by decide : ["", ";"] ⊆ directives) isIdle
    · exact (by decide : [".class", ".super", ".field"] ⊆ directives) isDirective
  rw [readable.linesOf_text isIndent, ClassFile.textLines, List.append_assoc, List.filterMap_append,
    ofPreamble, List.nil_append, filterMap_readLine_joinGroups isIndent readable.lines]

end ClassFile.IsReadable

/-! ## Classes with plain names -/

/-- A method whose names can be read. -/
structure PlainMethod (method : ThreeAddress.Method) : Prop where
  name : IsName method.name
  types : ∀ ty ∈ method.returnTy :: method.params.map Symbol.ty, IsName ty.name
  body : ∀ instr ∈ method.body, ∀ name ∈ namesOf instr, IsName name

/-- A class whose names can be read. -/
structure PlainClass (unit : ClassUnit) : Prop where
  name : IsName unit.name
  parent : ∀ parent ∈ unit.superClass, IsName parent
  imports : ∀ entry ∈ unit.importTable, IsPath entry.2
  fields : ∀ field ∈ unit.fields, IsName field.name ∧ IsName field.ty.name
  methods : ∀ method ∈ unit.methods, PlainMethod method

/-- An indent of blanks, and a root class with a path. -/
structure PlainOptions (options : Options) : Prop where
  indent : IsIndent options.indent
  rootClass : IsPath options.rootClass

instance (method : ThreeAddress.Method) : Decidable (PlainMethod method) :=
  decidable_of_iff (IsName method.name ∧
      (∀ ty ∈ method.returnTy :: method.params.map Symbol.ty, IsName ty.name) ∧
      ∀ instr ∈ method.body, ∀ name ∈ namesOf instr, IsName name)
    ⟨fun ⟨name, types, body⟩ => ⟨name, types, body⟩, fun ⟨name, types, body⟩ => ⟨name, types, body⟩⟩

instance (unit : ClassUnit) : Decidable (PlainClass unit) :=
  decidable_of_iff (IsName unit.name ∧ (∀ parent ∈ unit.superClass, IsName parent) ∧
      (∀ entry ∈ unit.importTable, IsPath entry.2) ∧
      (∀ field ∈ unit.fields, IsName field.name ∧ IsName field.ty.name) ∧
      ∀ method ∈ unit.methods, PlainMethod method)
    ⟨fun ⟨name, parent, imports, fields, methods⟩ => ⟨name, parent, imports, fields, methods⟩,
      fun ⟨name, parent, imports, fields, methods⟩ => ⟨name, parent, imports, fields, methods⟩⟩

section

variable {options : Options} (plainOptions : PlainOptions options) {unit : ClassUnit}
  (plain : PlainClass unit)
include plainOptions plain

theorem PlainClass.hasPaths : (Linkage.ofClass options.rootClass unit).HasPaths := by
  have entered {known entries : List (String × String)} {entry : String × String}
      (member : entry ∈ entries.foldl ClassPaths.enter known) :
      entry ∈ known ∨ entry ∈ entries := by
    induction entries generalizing known with
    | nil => exact .inl member
    | cons first rest ih =>
        rcases ih member with before | later
        · unfold ClassPaths.enter at before
          split at before
          · exact .inl before
          · rcases List.mem_append.mp before with before | isFirst
            · exact .inl before
            · exact .inr (List.mem_cons.mpr (.inl (List.mem_singleton.mp isFirst)))
        · exact .inr (List.mem_cons_of_mem _ later)
  have imports : ∀ entry ∈ (ClassPaths.ofClass unit).imports, IsPath entry.2 := by
    intro entry member
    exact plain.imports entry ((entered member).resolve_left List.not_mem_nil)
  have paths : (⟨ClassPaths.ofClass unit, options.rootClass⟩ : Linkage).HasPaths :=
    ⟨imports, plainOptions.rootClass⟩
  refine ⟨imports, ?_⟩
  change IsPath (parentPath _ _ _)
  unfold parentPath
  split
  · next parent isParent => exact paths.classPath (plain.parent parent isParent)
  · exact plainOptions.rootClass

/-- The class file of a class with plain names can be read. -/
theorem PlainClass.isReadable {counts after : ComparisonCounts} {file : ClassFile}
    (generated : generateClass options.rootClass unit counts = .ok file after) :
    file.IsReadable := by
  have hasPaths := plain.hasPaths plainOptions
  obtain ⟨_, codes, generates, rfl⟩ := generateClass_eq_ok_iff.mp generated
  have each : ∀ code ∈ codes, IsUnbroken code.header.text ∧
      ∀ line ∈ code.lines, line.IsReadable := by
    intro code member
    obtain ⟨method, inClass, start, _, generatedMethod⟩ := generates.exists_method member
    obtain ⟨_, rfl, _⟩ := generateMethod_eq_ok_iff_generatedMethod.mp generatedMethod
    have plainMethod := plain.methods method inClass
    have types := List.forall_mem_cons.mp plainMethod.types
    refine ⟨?_, allReadable_bodyCode hasPaths _ _ _ plainMethod.body⟩
    change IsUnbroken (methodHeader _ method).text
    unfold methodHeader
    split
    · decide
    split
    · decide
    · simp only [Header.text, isUnbroken_append]
      refine ⟨⟨⟨⟨by decide, ?_⟩, ?_⟩, plainMethod.name.isUnbroken⟩,
        (hasPaths.signatureOf types.2 types.1).isUnbroken⟩
      · split <;> decide
      · split <;> decide
  refine ⟨plain.name.isUnbroken, hasPaths.parent.isUnbroken, ?_, fun code member =>
    (each code member).1, fun code member => (each code member).2⟩
  change ∀ field ∈ unit.fields.map _, _
  rw [List.forall_mem_map]
  intro field member
  exact ⟨(plain.fields field member).1.isUnbroken,
    (hasPaths.descriptorOf (plain.fields field member).2).isUnbroken⟩

end

end ClassCompiler.StackCode

namespace ClassCompiler

open StackCode

/-- Whether the lowered class has plain names can be evaluated. -/
theorem plainClass_of_compile {options : Options} {table : SymbolTable} {program : Program}
    {compiled : Compiled} (run : compile options table program = .ok compiled)
    (check : (ThreeAddress.lowerFresh table program).toOption.any
      (fun unit => decide (PlainClass unit)) = true) : PlainClass compiled.unit := by
  rw [(compile_eq_ok_iff.mp run).1] at check
  exact of_decide_eq_true check

/-- The blocks of a compiled class with plain names are read from its assembly. -/
theorem Compiled.IsWritten.readListing_assembly {compiled : Compiled} {options : Options}
    {file : ClassFile} (written : compiled.IsWritten options file)
    (plainOptions : PlainOptions options) (plain : PlainClass compiled.unit) :
    readListing compiled.assembly = some (file.methods.map MethodCode.block) := by
  obtain ⟨after, generated⟩ := written.generated
  rw [written.assembly_eq]
  exact (plain.isReadable plainOptions generated).readListing_text plainOptions.indent

end ClassCompiler
