import ClassCompiler.Compile
import ClassCompiler.Proofs.Json.Documents
import ClassCompiler.SymbolTable.Document

/-!
# Written symbol tables

A symbol table is read back from its text as it was. So it makes no difference whether a
program is compiled against the table that it declares or against the written and
reread one. Where a written type says that it collects arguments it is read as an array
type, whatever else it says.
-/

namespace ClassCompiler

open Json

/-! ## Documents of tables -/

section

variable {α : Type} {write : α → Document}

theorem isWritten_map (items : List α) (each : ∀ item, (write item).IsWritten) :
    (Document.array (items.map write)).IsWritten :=
  .array (List.forall_mem_map.mpr fun item _ => each item)

theorem isWritten_cons {key : Option String} {value : Document}
    {fields : List (Option String × Document)} (isWritten : value.IsWritten)
    (others : (Document.object fields).IsWritten) :
    (Document.object ((key, value) :: fields)).IsWritten := by
  cases others with
  | object each => exact .object (List.forall_mem_cons.mpr ⟨isWritten, each⟩)

theorem isWritten_nil : (Document.object []).IsWritten := .object (List.forall_mem_nil _)

end

theorem isWritten_ty (ty : Ty) : ty.toDocument.IsWritten :=
  isWritten_cons (.string _) (isWritten_cons (.bool _) (isWritten_cons (.bool _) isWritten_nil))

theorem isWritten_symbol (symbol : Symbol) : symbol.toDocument.IsWritten :=
  isWritten_cons (.string _) (isWritten_cons (isWritten_ty _) isWritten_nil)

theorem isWritten_signature (signature : MethodSignature) : signature.toDocument.IsWritten := by
  apply isWritten_cons (.string _)
  apply isWritten_cons (isWritten_ty _)
  apply isWritten_cons (isWritten_map _ isWritten_symbol)
  apply isWritten_cons (isWritten_map _ isWritten_symbol)
  exact isWritten_cons (.bool _) (isWritten_cons (.bool _) isWritten_nil)

theorem isWritten_table (table : SymbolTable) : table.toDocument.IsWritten := by
  apply isWritten_cons (.string _)
  apply isWritten_cons
  · cases table.superClass with
    | none => exact .null
    | some name => exact .string _
  apply isWritten_cons (isWritten_map _ fun _ => .string _)
  apply isWritten_cons (isWritten_map _ isWritten_symbol)
  exact isWritten_cons (isWritten_map _ isWritten_signature) isWritten_nil

/-! ## Reading what is written -/

theorem list?_map {α : Type} {read : Nat → Document → Option α} {write : α → Document}
    {depth : Nat} (items : List α) (each : ∀ item, read depth (write item) = some item) :
    list? read (depth + 1) (.array (items.map write)) = some items := by
  induction items with
  | nil => rfl
  | cons item items ih =>
      unfold list? at ih ⊢
      simp_all

theorem ofDocument?_ty (depth : Nat) (ty : Ty) :
    Ty.ofDocument? (depth + 1) ty.toDocument = some ty := by
  obtain ⟨name, shape⟩ := ty
  cases shape <;> rfl

theorem ofDocument?_symbol (depth : Nat) (symbol : Symbol) :
    Symbol.ofDocument? (depth + 2) symbol.toDocument = some symbol := by
  have given : record? ["name", "type"] (depth + 2) symbol.toDocument =
      some ([("name", .string (some symbol.name)), ("type", symbol.ty.toDocument)], depth + 1) :=
  rfl
  simp [Symbol.ofDocument?, given, Record.required?, Record.get?, List.lookup_cons, Document.text?,
    ofDocument?_ty]

theorem ofDocument?_signature (depth : Nat) (signature : MethodSignature) :
    MethodSignature.ofDocument? (depth + 4) signature.toDocument = some signature := by
  have given : record? ["name", "returnType", "params", "locals", "isStatic", "isPublic"]
      (depth + 4) signature.toDocument = some ([("name", .string (some signature.name)),
        ("returnType", signature.returnTy.toDocument),
        ("params", .array (signature.params.map Symbol.toDocument)),
        ("locals", .array (signature.locals.map Symbol.toDocument)),
        ("isStatic", .bool signature.isStatic), ("isPublic", .bool signature.isPublic)],
        depth + 3) := rfl
  have symbols (items : List Symbol) :
      list? Symbol.ofDocument? (depth + 3) (.array (items.map Symbol.toDocument)) = some items :=
    list?_map items fun item => ofDocument?_symbol depth item
  simp [MethodSignature.ofDocument?, given, Record.required?, Record.withDefault?, Record.get?,
    List.lookup_cons, Document.text?, Document.bool?, ofDocument?_ty, symbols]

/-- The name of a superclass, or null. -/
def superDocument : Option String → Document
  | some name => .string (some name)
  | none => .null

theorem nameOrNull?_superDocument (superClass : Option String) :
    SymbolTable.nameOrNull? (superDocument superClass) = some superClass := by
  cases superClass <;> rfl

theorem ofDocument?_table (depth : Nat) (table : SymbolTable) :
    SymbolTable.ofDocument? (depth + 6) table.toDocument = some table := by
  have given : record? ["className", "superClass", "imports", "fields", "methods"] (depth + 6)
      table.toDocument = some ([("className", .string (some table.className)),
        ("superClass", superDocument table.superClass),
        ("imports", .array (table.imports.map fun name => .string (some name))),
        ("fields", .array (table.fields.map Symbol.toDocument)),
        ("methods", .array (table.methods.map MethodSignature.toDocument))], depth + 5) := by
    obtain ⟨className, superClass, imports, fields, methods⟩ := table
    cases superClass <;> rfl
  have imports : list? (fun _ => Document.text?) (depth + 5)
      (.array (table.imports.map fun name => .string (some name))) = some table.imports :=
    list?_map table.imports fun _ => rfl
  have fields : list? Symbol.ofDocument? (depth + 5)
      (.array (table.fields.map Symbol.toDocument)) = some table.fields :=
    list?_map table.fields fun item => ofDocument?_symbol (depth + 2) item
  have methods : list? MethodSignature.ofDocument? (depth + 5)
      (.array (table.methods.map MethodSignature.toDocument)) = some table.methods :=
    list?_map table.methods fun item => ofDocument?_signature depth item
  simp [SymbolTable.ofDocument?, given, Record.required?, Record.withDefault?, Record.get?,
    List.lookup_cons, Document.text?, nameOrNull?_superDocument, imports, fields, methods]

/-- The text of a table is read as the table. -/
theorem ofText?_table (table : SymbolTable) : SymbolTable.ofText? table.text = some table := by
  unfold SymbolTable.ofText? SymbolTable.text
  rw [ofText?_text (isWritten_table table)]
  exact ofDocument?_table 121 table

/-! ## What a read type is -/

theorem flagged_eq_iff {name : String} {isArray isVararg : Bool} {ty : Ty} :
    (if isVararg then Ty.varargOf name else if isArray then Ty.arrayOf name else Ty.named name) = ty ↔
      name = ty.name ∧ ty.isArray = (isArray || isVararg) ∧ ty.isVararg = isVararg := by
  obtain ⟨other, shape⟩ := ty
  cases isVararg <;> cases isArray <;> cases shape <;>
    simp [Ty.varargOf, Ty.arrayOf, Ty.named, Ty.isArray, Ty.isVararg]

/-- A type is read with its own flags, except that one that collects arguments is an
array type in any case. -/
theorem ofDocument?_ty_eq_some_iff {depth : Nat} {document : Document} {ty : Ty} :
    Ty.ofDocument? depth document = some ty ↔ ∃ record inner isArray isVararg,
      record? ["name", "isArray", "isVararg"] depth document = some (record, inner) ∧
      record.required? "name" Document.text? = some ty.name ∧
      record.withDefault? "isArray" false Document.bool? = some isArray ∧
      record.withDefault? "isVararg" false Document.bool? = some isVararg ∧
      ty.isArray = (isArray || isVararg) ∧ ty.isVararg = isVararg := by
  unfold Ty.ofDocument?
  simp only [Option.bind_eq_bind, Option.bind_eq_some_iff, Option.pure_def, Option.some.injEq,
    flagged_eq_iff]
  constructor
  · rintro ⟨⟨record, inner⟩, given, name, nameRead, isArray, arrayRead, isVararg, varargRead, rfl,
      flags⟩
    exact ⟨record, inner, isArray, isVararg, given, nameRead, arrayRead, varargRead, flags⟩
  · rintro ⟨record, inner, isArray, isVararg, given, nameRead, arrayRead, varargRead, flags⟩
    exact ⟨(record, inner), given, ty.name, nameRead, isArray, arrayRead, isVararg, varargRead, rfl,
      flags⟩

/-- The types that a table names. -/
def SymbolTable.types (table : SymbolTable) : List Ty :=
  table.fields.map Symbol.ty ++ table.methods.flatMap fun method =>
    method.returnTy :: (method.params ++ method.locals).map Symbol.ty

/-! ## Compiling against a reread table -/

/-- A written table is as good as the table itself: it is read back as it was, what is read
keeps the rule that types which collect arguments are array types, and a program or
tree compiles against the reread table as it does against the one that it declares. -/
theorem reread_table_compiles_alike :
    (∀ table : SymbolTable, SymbolTable.ofText? table.text = some table) ∧
    (∀ text table, SymbolTable.ofText? text = some table →
      ∀ ty ∈ table.types, ty.isVararg = true → ty.isArray = true) ∧
    (∀ depth document ty, Ty.ofDocument? depth document = some ty ↔
      ∃ record inner isArray isVararg,
        record? ["name", "isArray", "isVararg"] depth document = some (record, inner) ∧
        record.required? "name" Document.text? = some ty.name ∧
        record.withDefault? "isArray" false Document.bool? = some isArray ∧
        record.withDefault? "isVararg" false Document.bool? = some isVararg ∧
        ty.isArray = (isArray || isVararg) ∧ ty.isVararg = isVararg) ∧
    (∀ options program, ∃ table,
      SymbolTable.ofText? (SymbolTable.ofProgram program).text = some table ∧
      compile options table program = compileProgram options program) ∧
    ∀ options node program, Program.ofNode node = .ok program →
      compileNode options (SymbolTable.ofText? (SymbolTable.ofProgram program).text) node =
        compileNode options none node := by
  refine ⟨ofText?_table, ?_, fun _ _ _ => ofDocument?_ty_eq_some_iff, ?_, ?_⟩
  · exact fun _ _ _ ty _ isVararg => Ty.isArray_of_isVararg isVararg
  · exact fun options program => ⟨_, ofText?_table _, rfl⟩
  · intro options node program converted
    simp only [compileNode, converted, ofText?_table]
    rfl

/-- A table whose only field has a type that collects arguments. -/
def ratesTable : SymbolTable where
  className := "Ledger"
  fields := [⟨"rates", Ty.varargOf "int"⟩]

/-- A text of the table that leaves out all that can be left out. -/
def ratesText : String :=
  "\x7b\"className\":\"Ledger\",\"fields\":[\x7b\"name\":\"rates\",\"type\":" ++
    "\x7b\"name\":\"int\",\"isVararg\":true\x7d\x7d]\x7d"

theorem reread_table_compiles_alike_ratesTable :
    SymbolTable.ofText? ratesText = some ratesTable ∧
    SymbolTable.ofText? ratesTable.text = some ratesTable ∧
    (∀ ty ∈ ratesTable.types, ty.isVararg = true → ty.isArray = true) ∧
    compileNode {}
        (SymbolTable.ofText? (SymbolTable.ofProgram ⟨[], ⟨"Ledger", none, [], []⟩⟩).text)
        ⟨.program, [⟨.classDecl, [], [("name", .string "Ledger")]⟩], []⟩ =
      compileNode {} none
        ⟨.program, [⟨.classDecl, [], [("name", .string "Ledger")]⟩], []⟩ := by
  have given : SymbolTable.ofText? ratesText = some ratesTable := by decide +kernel
  obtain ⟨reread, keepsRule, _, _, compiles⟩ := reread_table_compiles_alike
  exact ⟨given, reread ratesTable, keepsRule ratesText ratesTable given, compiles _ _ _ rfl⟩

end ClassCompiler
