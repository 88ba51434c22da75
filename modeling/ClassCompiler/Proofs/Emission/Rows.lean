import ClassCompiler.Proofs.Assembly.Lines
import ClassCompiler.Proofs.Emission.Classes

/-!
# Rows of a listing

The written form of a class consists of rows that the class alone decides. Options and
earlier generations only fill the gaps in them: the indent of limits and instructions, the
root class where a class without parent names its parent, and the numbers in the labels of
comparisons. The comment on the constructor is a row that options may leave out.
-/

namespace ClassCompiler.StackCode

open ThreeAddress (Call ClassUnit Method Value)

/-! ## Rows -/

/-- A row of a listing: a comment, text with or without an indent, a reference to the root
class, or a use of a comparison label, whose number is counted from the start of the
generation. -/
inductive Row where
  | comment
  | plain (text : String)
  | indented (text : String)
  | parent
  | parentCall (member : String)
  | branch (kind : Comparison) (number : Nat)
  | skip (kind : Comparison) (number : Nat)
  | holds (kind : Comparison) (number : Nat)
  | past (kind : Comparison) (number : Nat)
deriving DecidableEq, Repr

section

-- The number at which the comparisons of each kind start.
variable (options : Options) (start : Comparison → Nat)

/-- A row as it is written, if it is. -/
def Row.line? : Row → Option String
  | .comment => if options.emitComments then some "; default constructor" else none
  | .plain text => some text
  | .indented text => some (options.indent ++ text)
  | .parent => some (".super " ++ options.rootClass)
  | .parentCall member =>
      some (options.indent ++
        (ThreeAddress.InvokeMode.special.keyword ++ " " ++ options.rootClass ++ "/" ++ member))
  | .branch kind number =>
      some (options.indent ++ (branchWord kind ++ " " ++ trueLabel kind (start kind + number)))
  | .skip kind number =>
      some (options.indent ++ ("goto " ++ endLabel kind (start kind + number)))
  | .holds kind number => some (trueLabel kind (start kind + number) ++ ":")
  | .past kind number => some (endLabel kind (start kind + number) ++ ":")

/-- The lines that are written for rows. -/
def written (rows : List Row) : List String := rows.filterMap (Row.line? options start)

@[simp] theorem written_append (rows others : List Row) :
    written options start (rows ++ others) =
      written options start rows ++ written options start others :=
  List.filterMap_append

theorem written_cons {row : Row} {line : String} (lineEq : row.line? options start = some line)
    (rows : List Row) :
    written options start (row :: rows) = line :: written options start rows :=
  List.filterMap_cons_some lineEq

end

/-! ## Rows of instructions -/

/-- The row of a line without gaps. -/
def lineRow : Line Instr → Row
  | .instr op => .indented op.text
  | .label name => .plain (name ++ ":")

/-- The rows of a comparison. -/
def comparisonRows (kind : Comparison) (number : Nat) : List Row :=
  [.indented (Instr.arith .sub).text, .branch kind number, .indented (Instr.pushInt 0).text,
    .skip kind number, .holds kind number, .indented (Instr.pushInt 1).text, .past kind number]

section

-- The path of the parent, if the class names one.
variable (paths : ClassPaths) (parent? : Option String)

/-- The row that names the parent. -/
def superRow : Row :=
  match parent? with
  | some path => .plain (".super " ++ path)
  | none => .parent

/-- The row that calls a method of the parent on the current object. -/
def parentCallRow (method : String) (descriptor : MethodDescriptor) : Row :=
  match parent? with
  | some path => .indented (Instr.invoke .special path method descriptor).text
  | none => .parentCall (method ++ descriptor.text)

variable (names : List String)

/-- The rows of a call up to its result. -/
def callRows (call : Call) : List Row :=
  match call.invocation, call.target, call.method with
  | .invoke .special, some (.self ty), some method =>
      (loadsCode names (.self ty :: call.args)).map lineRow ++
        [parentCallRow parent? method
          (paths.signatureOf (call.args.map Value.ty) call.returnTy)]
  | _, _, _ => (callCode ⟨paths, ""⟩ names call).map lineRow

variable (isMain : Bool)

/-- The rows of an instruction. -/
def instrRows (counts : ComparisonCounts) : ThreeAddress.Instr → List Row
  | .binary dest (.compare kind) left right =>
      (loadsCode names [left, right]).map lineRow ++ comparisonRows kind (counts.next kind) ++
        (storeCode names dest).map lineRow
  | .call dest call =>
      callRows paths parent? names call ++ (resultCode names dest call).map lineRow
  | instr => (instrCode ⟨paths, ""⟩ isMain names counts instr).map lineRow

/-- The rows of a body. -/
def bodyRows (counts : ComparisonCounts) : ThreeAddress.Code → List Row
  | [] => []
  | instr :: rest =>
      instrRows paths parent? names isMain counts instr ++
        bodyRows (instrCounts counts instr) rest

/-- The rows of a method. -/
def methodRows (counts : ComparisonCounts) (method : Method) : List Row :=
  (if method.isConstructor then [.comment] else []) ++
    .plain (methodHeader paths method).text ::
    .indented (".limit stack " ++ toString (bodyHeight method.isMain method.body)) ::
    .indented (".limit locals " ++ toString (slotNames method).length) ::
    (bodyRows paths parent? (slotNames method) method.isMain counts method.body ++
      [.plain ".end method"])

/-- The rows of methods, with an empty row between them. -/
def methodsRows (counts : ComparisonCounts) : List Method → List Row
  | [] => []
  | [method] => methodRows paths parent? counts method
  | method :: other :: rest =>
      methodRows paths parent? counts method ++
        .plain "" :: methodsRows (bodyCounts counts method.body) (other :: rest)

end

/-- The path of the parent of a class, if it names one. -/
def declaredParent? (unit : ClassUnit) : Option String :=
  unit.superClass.map (ClassPaths.ofClass unit).classPath

/-- The rows of a class. They depend on nothing else. -/
def classRows (unit : ClassUnit) : List Row :=
  let paths := ClassPaths.ofClass unit
  .plain (".class public " ++ unit.name) :: superRow (declaredParent? unit) :: .plain "" ::
    (unit.fields.map fun field =>
      .plain (".field public '" ++ field.name ++ "' " ++ (paths.descriptorOf field.ty).text)) ++
    (if unit.fields.isEmpty then [] else [.plain ""]) ++
    methodsRows paths (declaredParent? unit) {} unit.methods

/-! ## Written rows -/

section

variable {options : Options} {start : Comparison → Nat} {paths : ClassPaths}
  {parent? : Option String} {isMain : Bool} {names : List String}

/-- Counts from the start of a generation, and from the start of all. -/
def CountsFrom (start : Comparison → Nat) (offset counts : ComparisonCounts) : Prop :=
  ∀ kind, counts.next kind = start kind + offset.next kind

variable {offset counts : ComparisonCounts}

theorem CountsFrom.instrCounts (countsFrom : CountsFrom start offset counts)
    (instr : ThreeAddress.Instr) :
    CountsFrom start (instrCounts offset instr) (instrCounts counts instr) := by
  cases instr with
  | binary dest op left right =>
      cases op with
      | compare kind =>
          intro other
          change (counts.skip kind).next other = start other + (offset.skip kind).next other
          rw [ComparisonCounts.next_skip, ComparisonCounts.next_skip, countsFrom other,
            Nat.add_assoc]
      | _ => exact countsFrom
  | _ => exact countsFrom

theorem CountsFrom.bodyCounts (countsFrom : CountsFrom start offset counts)
    (body : ThreeAddress.Code) :
    CountsFrom start (bodyCounts offset body) (bodyCounts counts body) := by
  unfold StackCode.bodyCounts
  induction body generalizing offset counts with
  | nil => exact countsFrom
  | cons instr rest ih => exact ih (countsFrom.instrCounts instr)

theorem written_map_lineRow (lines : Lines) :
    written options start (lines.map lineRow) =
      lines.map (Line.text options.indent Instr.text) := by
  rw [written, List.filterMap_map]
  apply List.filterMap_eq_map_iff_forall_eq_some.mpr
  intro line _
  cases line <;> rfl

theorem written_comparisonRows (kind : Comparison) (number : Nat) :
    written options start (comparisonRows kind number) =
      (comparisonCode kind (start kind + number)).map (Line.text options.indent Instr.text) :=
  rfl

theorem line?_parentCallRow (method : String) (descriptor : MethodDescriptor) :
    (parentCallRow parent? method descriptor).line? options start =
      some (Line.text options.indent Instr.text
        (.instr (.invoke .special (parent?.getD options.rootClass) method descriptor))) := by
  cases parent? with
  | some path => rfl
  | none => exact congrArg (fun text => some (options.indent ++ text)) String.append_assoc.symm

/-- The parent matters for calls on the current object only. -/
theorem written_callRows (call : Call) :
    written options start (callRows paths parent? names call) =
      (callCode ⟨paths, parent?.getD options.rootClass⟩ names call).map
        (Line.text options.indent Instr.text) := by
  obtain ⟨invocation, target, method, args, returnTy⟩ := call
  cases invocation with
  | new => exact written_map_lineRow _
  | newArray => cases args <;> exact written_map_lineRow _
  | arrayLength => cases target <;> exact written_map_lineRow _
  | invoke mode =>
      cases target with
      | none => cases mode <;> exact written_map_lineRow _
      | some target =>
          cases method with
          | none => cases mode <;> cases target <;> exact written_map_lineRow _
          | some method =>
              cases mode with
              | static => cases target <;> exact written_map_lineRow _
              | virtual => exact written_map_lineRow _
              | special =>
                  cases target with
                  | self ty =>
                      change written options start
                          ((loadsCode names (.self ty :: args)).map lineRow ++
                            [parentCallRow parent? method _]) =
                        (loadsCode names (.self ty :: args) ++ [_]).map _
                      rw [written_append, written_map_lineRow,
                        written_cons _ _ (line?_parentCallRow method _), List.map_append]
                      rfl
                  | _ => exact written_map_lineRow _

/-- The counts matter for comparisons only. -/
theorem written_instrRows (countsFrom : CountsFrom start offset counts)
    (instr : ThreeAddress.Instr) :
    written options start (instrRows paths parent? names isMain offset instr) =
      (instrCode ⟨paths, parent?.getD options.rootClass⟩ isMain names counts instr).map
        (Line.text options.indent Instr.text) := by
  cases instr with
  | binary dest op left right =>
      cases op with
      | compare kind =>
          have noIncrement : increment? dest (.compare kind) left right = none := by
            apply Option.eq_none_iff_forall_not_mem.mpr
            intro increment found
            obtain ⟨_, isArith⟩ := exists_arith_of_increment? found
            cases isArith
          rw [instrRows, written_append, written_append, written_map_lineRow, written_map_lineRow,
            written_comparisonRows, ← countsFrom kind, instrCode, noIncrement, List.map_append,
            List.map_append]
          rfl
      | arith op | and => exact written_map_lineRow _
  | call dest call =>
      rw [instrRows, written_append, written_callRows, written_map_lineRow, instrCode,
        List.map_append]
  | assign dest value => cases dest <;> exact written_map_lineRow _
  | ret value => cases value <;> exact written_map_lineRow _
  | _ => exact written_map_lineRow _

theorem written_bodyRows (countsFrom : CountsFrom start offset counts)
    (body : ThreeAddress.Code) :
    written options start (bodyRows paths parent? names isMain offset body) =
      (bodyCode ⟨paths, parent?.getD options.rootClass⟩ isMain names counts body).map
        (Line.text options.indent Instr.text) := by
  induction body generalizing offset counts with
  | nil => rfl
  | cons instr rest ih =>
      rw [bodyRows, written_append, written_instrRows countsFrom, bodyCode, List.map_append,
        ih (countsFrom.instrCounts instr)]

theorem methodHeader_eq_constructor_iff {method : Method} :
    methodHeader paths method = .constructor ↔ method.isConstructor = true := by
  unfold methodHeader
  cases method.isConstructor <;> cases method.isMain <;> simp

/-- The comment is written for a constructor, if the options say so. -/
theorem written_comment (paths : ClassPaths) (method : Method) :
    written options start (if method.isConstructor then [.comment] else []) =
      if methodHeader paths method = .constructor ∧ options.emitComments = true then
        ["; default constructor"]
      else [] := by
  simp only [methodHeader_eq_constructor_iff]
  cases method.isConstructor with
  | false => simp [written]
  | true => cases emits : options.emitComments <;> simp [written, Row.line?, emits]

/-- The written form of a method consists of its rows. -/
theorem textLines_generatedMethod (countsFrom : CountsFrom start offset counts) (method : Method) :
    (generatedMethod ⟨paths, parent?.getD options.rootClass⟩ method counts).textLines
        options.layout =
      written options start (methodRows paths parent? offset method) := by
  have bodyEq : written options start
      (bodyRows paths parent? (slotNames method) method.isMain offset method.body) =
      (methodCode ⟨paths, parent?.getD options.rootClass⟩ method counts).map
        (Line.text options.indent Instr.text) := written_bodyRows countsFrom method.body
  rw [methodRows, written_append, written_comment paths, written_cons _ _ rfl, written_cons _ _ rfl,
    written_cons _ _ rfl, written_append, bodyEq]
  rfl

/-- The written forms of methods consist of their rows, if the methods are generated one
after the other. -/
theorem joinGroups_generatesMethods {after : ComparisonCounts} {methods : List Method}
    {codes : List MethodCode}
    (generates : GeneratesMethods ⟨paths, parent?.getD options.rootClass⟩ methods counts codes
      after) (countsFrom : CountsFrom start offset counts) :
    joinGroups (codes.map (MethodCode.textLines options.layout)) =
      written options start (methodsRows paths parent? offset methods) := by
  induction generates generalizing offset with
  | nil => rfl
  | @cons method rest _ _ _ _ _ first others ih =>
      obtain ⟨_, rfl, rfl⟩ := generateMethod_eq_ok_iff_generatedMethod.mp first
      have restEq := ih (countsFrom.bodyCounts method.body)
      cases others with
      | nil => exact textLines_generatedMethod countsFrom method
      | cons second later =>
          rw [List.map_cons, List.map_cons, joinGroups, textLines_generatedMethod countsFrom,
            methodsRows, written_append, written_cons _ _ rfl, ← restEq, List.map_cons]

theorem Linkage.ofClass_eq (rootClass : String) (unit : ClassUnit) :
    Linkage.ofClass rootClass unit =
      ⟨ClassPaths.ofClass unit, (declaredParent? unit).getD rootClass⟩ := by
  unfold Linkage.ofClass parentPath declaredParent?
  cases unit.superClass <;> rfl

theorem line?_superRow (parent? : Option String) :
    (superRow parent?).line? options start =
      some (".super " ++ parent?.getD options.rootClass) := by
  cases parent? <;> rfl

/-- The written form of a class consists of its rows. The options fill the gaps, and
comparisons are numbered from where the generation starts. -/
theorem textLines_classFileOf {after : ComparisonCounts} {unit : ClassUnit}
    {codes : List MethodCode}
    (generates : GeneratesMethods (.ofClass options.rootClass unit) unit.methods counts codes after)
    (countsFrom : CountsFrom start {} counts) :
    (classFileOf (.ofClass options.rootClass unit) unit codes).textLines options.layout =
      written options start (classRows unit) := by
  rw [Linkage.ofClass_eq] at generates ⊢
  have fieldsEq (paths : ClassPaths) (fields : List Symbol) :
      written options start (fields.map fun field =>
          .plain (".field public '" ++ field.name ++ "' " ++ (paths.descriptorOf field.ty).text)) =
        fields.map fun field =>
          ".field public '" ++ field.name ++ "' " ++ (paths.descriptorOf field.ty).text := by
    rw [written, List.filterMap_map]
    exact congrFun List.filterMap_eq_map fields
  have blankEq : written options start (if unit.fields.isEmpty then [] else [.plain ""]) =
      if unit.fields.isEmpty then [] else [""] := by
    cases unit.fields <;> rfl
  rw [classRows, written_append, written_append, blankEq, written_cons _ _ rfl,
    written_cons _ _ (line?_superRow _), written_cons _ _ rfl, fieldsEq,
    ← joinGroups_generatesMethods generates countsFrom]
  unfold ClassFile.textLines ClassFile.preamble classFileOf
  dsimp only
  rw [List.isEmpty_map, List.map_map]
  rfl

theorem text_classFileOf {after : ComparisonCounts} {unit : ClassUnit} {codes : List MethodCode}
    (generates : GeneratesMethods (.ofClass options.rootClass unit) unit.methods counts codes after)
    (countsFrom : CountsFrom start {} counts) :
    (classFileOf (.ofClass options.rootClass unit) unit codes).text options.layout =
      unlines (written options start (classRows unit)) := by
  rw [ClassFile.text_eq_unlines, textLines_classFileOf generates countsFrom]

theorem GeneratesMethods.after_eq {linkage : Linkage} {after : ComparisonCounts}
    {methods : List Method} {codes : List MethodCode}
    (generates : GeneratesMethods linkage methods counts codes after) :
    after = bodyCounts counts (methods.flatMap Method.body) := by
  induction generates with
  | nil => rfl
  | cons first _ ih =>
      obtain ⟨_, _, rfl⟩ := generateMethod_eq_ok_iff_generatedMethod.mp first
      rw [ih, List.flatMap_cons, bodyCounts, bodyCounts, bodyCounts,
        List.foldl_append]

/-- A class that has code is written with all options and from all counts: its rows, and
the counts after all its instructions. -/
theorem assemble_eq_ok {unit : ClassUnit} (hasCode : HasClassCode unit) (options : Options)
    (counts : ComparisonCounts) :
    assemble options unit counts = .ok (unlines (written options counts.next (classRows unit)))
      (bodyCounts counts (unit.methods.flatMap Method.body)) := by
  obtain ⟨codes, after, generates⟩ := exists_generatesMethods_iff.mpr hasCode.2
  have countsFrom : CountsFrom counts.next {} counts := by
    intro kind
    cases kind <;> rfl
  unfold assemble
  rw [Effects.bind_of_ok (generateClass_eq_ok_iff.mpr ⟨hasCode.1, codes, generates, rfl⟩),
    text_classFileOf generates countsFrom, generates.after_eq]
  rfl

end

/-- A class without parent, with a constructor and a method that compares its parameter
with a field. -/
def gateUnit : ClassUnit where
  name := "Gate"
  fields := [⟨"limit", Ty.int⟩]
  methods := [
    ThreeAddress.constructorOf { className := "Gate" },
    { name := "opens"
      returnTy := Ty.boolean
      params := [⟨"count", Ty.int⟩]
      temps := [⟨"tmp0", Ty.int⟩, ⟨"tmp1", Ty.boolean⟩]
      body := [
        .getField (.temp "tmp0" Ty.int) (.self (Ty.named "Gate")) "limit" Ty.int,
        .binary (.temp "tmp1" Ty.boolean) (.compare .less) (.var "count" Ty.int)
          (.temp "tmp0" Ty.int),
        .ret (some (.temp "tmp1" Ty.boolean))] }]

theorem hasClassCode_gateUnit : HasClassCode gateUnit := by decide +kernel

end ClassCompiler.StackCode
