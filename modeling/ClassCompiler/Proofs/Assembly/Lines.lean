import ClassCompiler.StackCode.ClassFile

/-!
# Lines of a text

A text is cut into lines at its line breaks, and lines without breaks are found again in
the text that is made of them. The written form of a class file is made of lines: those
of its methods, with an empty line between them, behind those of its name, its parent and
its fields.
-/

namespace ClassCompiler.StackCode

/-! ## Texts of lines -/

/-- Lines one after the other, each with its line break. -/
def unlines (lines : List String) : String := String.join (lines.map (· ++ "\n"))

@[simp] theorem unlines_nil : unlines [] = "" := String.join_nil

@[simp] theorem unlines_cons (line : String) (lines : List String) :
    unlines (line :: lines) = line ++ "\n" ++ unlines lines :=
  String.join_cons

@[simp] theorem unlines_append (lines others : List String) :
    unlines (lines ++ others) = unlines lines ++ unlines others := by
  rw [unlines, List.map_append, String.join_append]
  rfl

theorem toList_unlines (lines : List String) :
    (unlines lines).toList = (lines.map String.toList).flatMap (· ++ ['\n']) := by
  induction lines with
  | nil => rfl
  | cons line rest ih =>
      rw [unlines_cons, String.toList_append, String.toList_append, ih]
      rfl

/-! ## Line breaks -/

/-- The first line of a text, and the lines after it. -/
def splitBreaks : List Char → List Char × List (List Char)
  | [] => ([], [])
  | char :: rest =>
      let (first, later) := splitBreaks rest
      if char = '\n' then ([], first :: later) else (char :: first, later)

theorem splitBreaks_spec (chars : List Char) :
    (splitBreaks chars).1 ++ '\n' :: (splitBreaks chars).2.flatMap (· ++ ['\n']) =
      chars ++ ['\n'] := by
  induction chars with
  | nil => rfl
  | cons char rest ih =>
      by_cases isBreak : char = '\n'
      · simp [splitBreaks, isBreak, ← ih]
      · simp [splitBreaks, isBreak, ← ih]

theorem notMem_splitBreaks (chars : List Char) :
    '\n' ∉ (splitBreaks chars).1 ∧ ∀ line ∈ (splitBreaks chars).2, '\n' ∉ line := by
  induction chars with
  | nil => exact ⟨List.not_mem_nil, List.forall_mem_nil _⟩
  | cons char rest ih =>
      obtain ⟨first, later⟩ := ih
      by_cases isBreak : char = '\n'
      · simp only [splitBreaks, if_pos isBreak]
        exact ⟨List.not_mem_nil, List.forall_mem_cons.mpr ⟨first, later⟩⟩
      · simp only [splitBreaks, if_neg isBreak]
        refine ⟨?_, later⟩
        rw [List.mem_cons, not_or]
        exact ⟨fun same => isBreak same.symm, first⟩

/-- The first break ends the first line. -/
theorem splitBreaks_append_break {line : List Char} (unbroken : '\n' ∉ line) (rest : List Char) :
    splitBreaks (line ++ '\n' :: rest) = (line, (splitBreaks rest).1 :: (splitBreaks rest).2) := by
  induction line with
  | nil => rfl
  | cons char line ih =>
      rw [List.mem_cons, not_or] at unbroken
      simp [splitBreaks, ih unbroken.2, Ne.symm unbroken.1]

/-- The first line of a text. -/
def firstLine (text : String) : String := String.ofList (splitBreaks text.toList).1

/-- The lines of a text after its first one. -/
def laterLines (text : String) : List String := (splitBreaks text.toList).2.map String.ofList

theorem unlines_split (start text : String) :
    unlines ((start ++ firstLine text) :: laterLines text) = start ++ text ++ "\n" := by
  have textEq := splitBreaks_spec text.toList
  apply String.toList_inj.mp
  rw [toList_unlines, laterLines, firstLine]
  simp [Function.comp_def, textEq]

/-- The lines of a text. Behind a break at the end of the text there is an empty line. -/
def linesOf (text : String) : List String := firstLine text :: laterLines text

/-- Texts without line breaks. -/
def IsUnbroken (text : String) : Prop := '\n' ∉ text.toList

instance (text : String) : Decidable (IsUnbroken text) :=
  inferInstanceAs (Decidable ('\n' ∉ text.toList))

theorem isUnbroken_append {first second : String} :
    IsUnbroken (first ++ second) ↔ IsUnbroken first ∧ IsUnbroken second := by
  rw [IsUnbroken, String.toList_append, List.mem_append, not_or]
  rfl

theorem isUnbroken_toString (number : Nat) : IsUnbroken (toString number) := by
  intro isBreak
  rw [Nat.toString_eq_repr, Nat.toList_repr] at isBreak
  exact absurd (Nat.isDigit_of_mem_toDigits (by decide) (by decide) isBreak) (by decide)

theorem isUnbroken_firstLine (text : String) : IsUnbroken (firstLine text) := by
  rw [IsUnbroken, firstLine, String.toList_ofList]
  exact (notMem_splitBreaks text.toList).1

theorem isUnbroken_of_mem_laterLines {text line : String} (member : line ∈ laterLines text) :
    IsUnbroken line := by
  obtain ⟨chars, later, rfl⟩ := List.mem_map.mp member
  rw [IsUnbroken, String.toList_ofList]
  exact (notMem_splitBreaks text.toList).2 chars later

/-- Lines without breaks are the lines of their text. -/
theorem linesOf_unlines {lines : List String} (unbroken : ∀ line ∈ lines, IsUnbroken line) :
    linesOf (unlines lines) = lines ++ [""] := by
  induction lines with
  | nil => rfl
  | cons line rest ih =>
      obtain ⟨lineUnbroken, restUnbroken⟩ := List.forall_mem_cons.mp unbroken
      have charsEq : (unlines (line :: rest)).toList =
          line.toList ++ '\n' :: (unlines rest).toList := by simp
      rw [linesOf, firstLine, laterLines, charsEq, splitBreaks_append_break lineUnbroken,
        List.map_cons, String.ofList_toList, List.cons_append, ← ih restUnbroken]
      rfl

/-! ## Lines of class files -/

/-- Groups of lines, with an empty line between them. -/
def joinGroups : List (List String) → List String
  | [] => []
  | [group] => group
  | group :: other :: rest => group ++ "" :: joinGroups (other :: rest)

theorem unlines_joinGroups (groups : List (List String)) :
    unlines (joinGroups groups) = String.intercalate "\n" (groups.map unlines) := by
  fun_induction joinGroups with
  | case1 => rfl
  | case2 group => exact String.intercalate_singleton.symm
  | case3 group other rest ih =>
      rw [unlines_append, unlines_cons, ih, String.empty_append, List.map_cons,
        List.map_cons, List.map_cons, String.intercalate_cons_cons, String.append_assoc]

/-- The lines of a written method between its header and its end. -/
def MethodCode.innerLines (indent : String) (code : MethodCode) : List String :=
  (indent ++ (".limit stack " ++ toString code.stackLimit)) ::
    (indent ++ (".limit locals " ++ toString code.localLimit)) ::
    code.lines.map (Line.text indent Instr.text)

/-- The lines of a written method. -/
def MethodCode.textLines (layout : Layout) (code : MethodCode) : List String :=
  (if code.header = .constructor ∧ layout.comments then ["; default constructor"] else []) ++
    code.header.text :: (code.innerLines layout.indent ++ [".end method"])

theorem MethodCode.text_eq_unlines (layout : Layout) (code : MethodCode) :
    code.text layout = unlines (code.textLines layout) := by
  have linesEq :
      String.join (code.lines.map fun line => line.text layout.indent Instr.text ++ "\n") =
      unlines (code.lines.map (Line.text layout.indent Instr.text)) := by
    rw [unlines, List.map_map]
    rfl
  have commentEq : unlines (if code.header = .constructor ∧ layout.comments then
        ["; default constructor"] else []) =
      if code.header = .constructor ∧ layout.comments then "; default constructor\n" else "" := by
    split <;> rfl
  rw [MethodCode.text, textLines, unlines_append, commentEq, linesEq]
  simp [innerLines, String.append_assoc]

/-- The lines of a written class before its methods. -/
def ClassFile.preamble (file : ClassFile) : List String :=
  (".class public " ++ file.name) :: (".super " ++ file.superPath) :: "" ::
    (file.fields.map fun (name, descriptor) =>
      ".field public '" ++ name ++ "' " ++ descriptor.text) ++
    (if file.fields.isEmpty then [] else [""])

/-- The lines of a written class. -/
def ClassFile.textLines (layout : Layout) (file : ClassFile) : List String :=
  file.preamble ++ joinGroups (file.methods.map (MethodCode.textLines layout))

theorem ClassFile.text_eq_unlines (layout : Layout) (file : ClassFile) :
    file.text layout = unlines (file.textLines layout) := by
  have fieldsEq : String.join (file.fields.map fun (name, descriptor) =>
        ".field public '" ++ name ++ "' " ++ descriptor.text ++ "\n") =
      unlines (file.fields.map fun (name, descriptor) =>
        ".field public '" ++ name ++ "' " ++ descriptor.text) := by
    rw [unlines, List.map_map]
    rfl
  have blankEq : unlines (if file.fields.isEmpty then [] else [""]) =
      if file.fields.isEmpty then "" else "\n" := by
    split <;> rfl
  have methodsEq : (file.methods.map (MethodCode.text layout)) =
      (file.methods.map (MethodCode.textLines layout)).map unlines := by
    rw [List.map_map]
    exact List.map_congr_left fun code _ => code.text_eq_unlines layout
  have breaksEq (text : String) : "\n" ++ ("\n" ++ text) = "\n\n" ++ text := by
    rw [← String.append_assoc]
    rfl
  unfold ClassFile.text ClassFile.textLines ClassFile.preamble
  rw [fieldsEq, methodsEq]
  simp only [unlines_append, unlines_cons, unlines_joinGroups, blankEq, String.append_assoc,
    String.empty_append, breaksEq]

end ClassCompiler.StackCode
