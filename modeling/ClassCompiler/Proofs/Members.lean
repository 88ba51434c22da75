import ClassCompiler.Proofs.Emission.Jumps
import ClassCompiler.Proofs.Emission.Verified
import ClassCompiler.Proofs.Lowering.Rendering

/-!
# References to members

An instruction names a field or a method by its class, its name and a descriptor. The
descriptors of declarations come from declared types, those of references that read a
field from the declaration too, and all others from the types of the values at hand. So a
class links if the values that are given to fields and parameters have exactly the declared
types, and fails to link where an object of the class stands for one of its parent.
-/

namespace ClassCompiler.StackCode

open ThreeAddress (Method Value)

/-! ## References in code -/

/-- What an instruction says of the member that it names. -/
inductive MemberRef where
  | field (owner name : String) (descriptor : Descriptor)
  | method (mode : ThreeAddress.InvokeMode) (owner name : String)
      (descriptor : MethodDescriptor)
deriving DecidableEq, Repr

/-- The member that an instruction names. -/
def Instr.member? : Instr → Option MemberRef
  | .getField owner name descriptor | .putField owner name descriptor =>
      some (.field owner name descriptor)
  | .invoke mode owner name descriptor => some (.method mode owner name descriptor)
  | _ => none

/-- The member that the code of a three-address instruction names. -/
def memberOf? (linkage : Linkage) : ThreeAddress.Instr → Option MemberRef
  | .getField _ object field ty => some (.field (linkage.paths.classPath object.ty.name) field
      (linkage.paths.descriptorOf ty))
  | .putField object field value => some (.field (linkage.paths.classPath object.ty.name) field
      (linkage.paths.descriptorOf value.ty))
  | .call _ call =>
      match call.invocation, call.target, call.method with
      | .invoke mode, some target, some method =>
          some (.method mode (linkage.ownerOf mode target) method
            (linkage.paths.signatureOf (call.args.map Value.ty) call.returnTy))
      | _, _, _ => none
  | _ => none

section

variable {linkage : Linkage} {isMain : Bool} {names : List String} {counts : ComparisonCounts}
  {instr : ThreeAddress.Instr} {op : Instr}

theorem Instr.IsPlain.member?_eq_none (isPlain : op.IsPlain) : op.member? = none := by
  cases op with
  | getField owner name descriptor | putField owner name descriptor => exact isPlain.elim
  | invoke mode owner name descriptor => exact isPlain.elim
  | _ => rfl

/-- The code of an instruction names no other member than its own. -/
theorem Part.memberOf?_eq_some {ref : MemberRef}
    (part : Part linkage isMain names counts instr (.instr op)) (refers : op.member? = some ref) :
    memberOf? linkage instr = some ref := by
  cases part with
  | plain isPlain =>
      rw [isPlain.member?_eq_none] at refers
      cases refers
  | getField | putField | invoke => exact refers
  | _ => cases refers

end

/-! ## Declarations -/

/-- What a header declares. The constructor cannot be called by name. -/
def Header.declares? : Header → Option (String × MethodDescriptor)
  | .constructor => none
  | .main => some ("main", ⟨[.array (.object ClassPaths.stringPath)], .void⟩)
  | .method _ _ name descriptor => some (name, descriptor)

/-- All references to members of the class carry the descriptors of their declarations. -/
structure LinksMembers (file : ClassFile) : Prop where
  fields : ∀ code ∈ file.methods, ∀ instr owner name descriptor, .instr instr ∈ code.lines →
    instr.member? = some (.field owner name descriptor) →
      owner = file.name ∧ file.fields.lookup name = some descriptor
  methods : ∀ code ∈ file.methods, ∀ instr mode name descriptor, .instr instr ∈ code.lines →
    instr.member? = some (.method mode file.name name descriptor) → mode ≠ .special →
      ∀ other ∈ file.methods, ∀ declared, other.header.declares? = some (name, declared) →
        descriptor = declared

/-- The first item of a name gives the value of the name. -/
theorem lookup_map {α β : Type} (nameOf : α → String) (valueOf : α → β) (items : List α)
    (name : String) :
    (items.map fun item => (nameOf item, valueOf item)).lookup name =
      (items.find? fun item => nameOf item == name).map valueOf := by
  induction items with
  | nil => rfl
  | cons item rest ih =>
      rw [List.map_cons, List.lookup_cons, List.find?_cons, BEq.comm]
      cases nameOf item == name with
      | true => rfl
      | false => exact ih

/-- The first field of a name gives the descriptor of the name. -/
theorem lookup_fields (paths : ClassPaths) (fields : List Symbol) (name : String) :
    (fields.map fun field => (field.name, paths.descriptorOf field.ty)).lookup name =
      (fields.find? fun field => field.name == name).map fun field =>
        paths.descriptorOf field.ty :=
  lookup_map Symbol.name (fun field => paths.descriptorOf field.ty) fields name

/-! ## Paths -/

theorem lookup_enter (known : List (String × String)) (entry : String × String) (name : String) :
    (ClassPaths.enter known entry).lookup name =
      (known.lookup name).or ([entry].lookup name) := by
  unfold ClassPaths.enter
  split
  · next isKnown =>
      obtain ⟨path, found⟩ := Option.isSome_iff_exists.mp isKnown
      by_cases same : name = entry.1
      · rw [same, found, Option.some_or]
      · rw [List.lookup_cons, beq_eq_false_iff_ne.mpr same]
        exact Option.or_none.symm
  · exact List.lookup_append

/-- A name that is entered again keeps its path. -/
theorem lookup_foldl_enter (known entries : List (String × String)) (name : String) :
    (entries.foldl ClassPaths.enter known).lookup name =
      (known.lookup name).or (entries.lookup name) := by
  induction entries generalizing known with
  | nil => exact Option.or_none.symm
  | cons entry rest ih =>
      rw [List.foldl_cons, ih, lookup_enter, Option.or_assoc,
        ← List.lookup_append]
      rfl

theorem lookup_imports (unit : ThreeAddress.ClassUnit) (name : String) :
    (ClassPaths.ofClass unit).imports.lookup name =
      (unit.imports.find? fun qualified => Import.simpleName qualified == name).map
        Import.path := by
  rw [ClassPaths.ofClass, lookup_foldl_enter, ThreeAddress.ClassUnit.importTable, lookup_map]
  rfl

/-- An import without dots is its own path and its own simple name. -/
theorem simpleName_eq_path {qualified : String} (plain : '/' ∉ (Import.path qualified).toList) :
    Import.simpleName qualified = Import.path qualified := by
  have noDot : ∀ c ∈ qualified.toList, c ≠ '.' := by
    rintro _ member rfl
    apply plain
    rw [Import.path, String.toList_ofList]
    exact List.mem_map.mpr ⟨'.', member, rfl⟩
  have pathEq : qualified.toList.map (fun c => if c = '.' then '/' else c) = qualified.toList :=
    (List.map_congr_left fun c member => if_neg (noDot c member)).trans (List.map_id _)
  have nameEq : qualified.toList.reverse.takeWhile (· != '.') = qualified.toList.reverse := by
    rw [List.takeWhile_eq_self_iff]
    intro c member
    simpa using noDot c (List.mem_reverse.mp member)
  rw [Import.simpleName, Import.path, pathEq, nameEq, List.reverse_reverse]

theorem classPath_name (unit : ThreeAddress.ClassUnit) :
    (ClassPaths.ofClass unit).classPath unit.name = unit.name :=
  if_pos rfl

/-- No other class has the path of a class whose name has no slash. -/
theorem eq_of_classPath_eq {unit : ThreeAddress.ClassUnit} (plain : '/' ∉ unit.name.toList)
    {name : String} (pathEq : (ClassPaths.ofClass unit).classPath name = unit.name) :
    name = unit.name := by
  by_contra other
  have notOwn : name ≠ (ClassPaths.ofClass unit).className := other
  rw [ClassPaths.classPath, if_neg notOwn] at pathEq
  split at pathEq
  · rw [← pathEq] at plain
    exact plain (by decide)
  · rw [lookup_imports] at pathEq
    cases found : unit.imports.find? fun qualified => Import.simpleName qualified == name with
    | none =>
        rw [found] at pathEq
        exact other pathEq
    | some qualified =>
        rw [found] at pathEq
        have nameEq : Import.simpleName qualified = name := by simpa using List.find?_some found
        have pathEqName : Import.path qualified = unit.name := pathEq
        rw [← pathEqName] at plain other
        exact other (nameEq ▸ simpleName_eq_path plain)

end ClassCompiler.StackCode

namespace ClassCompiler.Semantics

/-! ## Types of values that are given to members -/

/-- The same type, where a parameter that collects arguments is an array. -/
def SameType (first second : Ty) : Prop :=
  first.name = second.name ∧ first.isArray = second.isArray

instance (first second : Ty) : Decidable (SameType first second) :=
  inferInstanceAs (Decidable (first.name = second.name ∧ first.isArray = second.isArray))

/-- The same type, or that of the class where its parent is declared. -/
def SameOrParent (table : SymbolTable) (value declared : Ty) : Prop :=
  SameType value declared ∨
    value = table.classTy ∧ table.superClass.map Ty.named = some declared

instance (table : SymbolTable) (value declared : Ty) :
    Decidable (SameOrParent table value declared) :=
  inferInstanceAs (Decidable (SameType value declared ∨
    value = table.classTy ∧ table.superClass.map Ty.named = some declared))

/-- Values that are given to fields and to parameters of methods of the class fit the
declared types. -/
def Occurrence.GivesFitting (fits : Ty → Ty → Prop) : Occurrence → Prop
  | .assignField _ declared value => fits value declared
  | .call own _ _ passed _ _ =>
      ∀ callee ∈ own, List.Forall₂ fits passed (callee.params.map Symbol.ty)
  | _ => True

instance (fits : Ty → Ty → Prop) [DecidableRel fits] (occurrence : Occurrence) :
    Decidable (occurrence.GivesFitting fits) :=
  match occurrence with
  | .self | .reference _ _ | .operator _ _ _ _ | .negation _ | .condition _ | .element _ _
  | .length _ | .newArray _ _ | .newObject _ | .array _ _ | .call _ _ _ _ _ _ | .assign _ _
  | .assignField _ _ _ | .assignElement _ _ _ | .returns _ | .invalidTarget => by
      unfold Occurrence.GivesFitting
      infer_instance

/-- Programs in which members are given fitting values only. -/
def GivesFitting (fits : Ty → Ty → Prop) (table : SymbolTable) (program : Program) : Prop :=
  ∀ decl ∈ program.decl.methods, ∀ signature ∈ table.method? decl.name,
    AllOf (Occurrence.GivesFitting fits)
      ((Context.mk table signature).bodyOccurrences decl.body)

instance (fits : Ty → Ty → Prop) [DecidableRel fits] (table : SymbolTable) (program : Program) :
    Decidable (GivesFitting fits table program) :=
  inferInstanceAs (Decidable (∀ decl ∈ program.decl.methods,
    ∀ signature ∈ table.method? decl.name,
      ∀ occurrence ∈ (Context.mk table signature).bodyOccurrences decl.body,
        occurrence.GivesFitting fits))

/-- An entry point is declared with the type that its header shows. -/
def HasStandardMain (table : SymbolTable) : Prop :=
  ∀ signature ∈ table.method? "main", signature.isStatic = true →
    List.Forall₂ SameType (signature.params.map Symbol.ty) [Ty.arrayOf "String"] ∧
      signature.returnTy = Ty.void

instance (table : SymbolTable) : Decidable (HasStandardMain table) :=
  inferInstanceAs (Decidable (∀ signature ∈ table.method? "main", signature.isStatic = true →
    List.Forall₂ SameType (signature.params.map Symbol.ty) [Ty.arrayOf "String"] ∧
      signature.returnTy = Ty.void))

theorem SameType.descriptorOf_eq {first second : Ty} (same : SameType first second)
    (paths : StackCode.ClassPaths) : paths.descriptorOf first = paths.descriptorOf second := by
  rw [StackCode.ClassPaths.descriptorOf, same.1, same.2]
  rfl

theorem signatureOf_eq {tys others : List Ty} (same : List.Forall₂ SameType tys others)
    (paths : StackCode.ClassPaths) (result : Ty) :
    paths.signatureOf tys result = paths.signatureOf others result := by
  have paramsEq : tys.map paths.descriptorOf = others.map paths.descriptorOf := by
    induction same with
    | nil => rfl
    | cons first _ ih =>
        rw [List.map_cons, List.map_cons, first.descriptorOf_eq, ih]
  rw [StackCode.ClassPaths.signatureOf, StackCode.ClassPaths.signatureOf, paramsEq]

end ClassCompiler.Semantics

namespace ClassCompiler.ThreeAddress

open Semantics (AllOf Context GivesFitting HasStandardMain Occurrence SameType)
open StackCode (ClassPaths Emittable HasMembers IsEmittable Linkage MemberRef memberOf?
  methodHeader)

/-! ## References of lowered methods -/

/-- A reference that agrees with the declarations of a class. -/
def IsDeclared (table : SymbolTable) (paths : ClassPaths) : MemberRef → Prop
  | .field owner name descriptor => owner = table.className ∧
      (table.field? name).map (fun symbol => paths.descriptorOf symbol.ty) = some descriptor
  | .method mode owner name descriptor => mode ≠ .special → owner = table.className →
      ∀ callee ∈ table.method? name,
        descriptor = paths.signatureOf (callee.params.map Symbol.ty) callee.returnTy

/-- What a method refers to depends on the paths of the class and of its parent. -/
structure HasOwnPath (table : SymbolTable) (paths : ClassPaths) : Prop where
  classPath_eq : paths.classPath table.className = table.className
  unique : ∀ {name}, paths.classPath name = table.className → name = table.className

theorem eq_classTy_of_hasMembers {table : SymbolTable} {ty : Ty} (hasMembers : HasMembers ty)
    (nameEq : ty.name = table.className) : ty = table.classTy := by
  obtain ⟨name, shape⟩ := ty
  cases nameEq
  cases shape with
  | single => rfl
  | array | vararg => cases hasMembers.1

/-- The instructions in a block of which the types fit refer to declared members. -/
theorem Block.isDeclared {context : Context} {hasSelf : Prop} {occurrence : Occurrence}
    {code : Code} {linkage : Linkage} {isMain : Bool} {names : List String}
    (isBlock : Block context hasSelf occurrence code)
    (fitting : occurrence.GivesFitting SameType)
    (ownPath : HasOwnPath context.table linkage.paths)
    (emittable : ∀ instr ∈ code, Emittable isMain names instr) :
    ∀ instr ∈ code, ∀ ref ∈ memberOf? linkage instr,
      IsDeclared context.table linkage.paths ref := by
  cases isBlock with
  | self | declared => exact List.forall_mem_nil _
  | field dest resolves =>
      rw [List.forall_mem_singleton]
      rintro _ ⟨rfl⟩
      obtain ⟨_, symbol, found, rfl⟩ := Context.exists_field_of_resolve resolves
      exact ⟨ownPath.classPath_eq, by rw [found]; rfl⟩
  | assignField resolves hasValue =>
      rw [List.forall_mem_singleton]
      rintro _ ⟨rfl⟩
      obtain ⟨_, symbol, found, rfl⟩ := Context.exists_field_of_resolve resolves
      refine ⟨ownPath.classPath_eq, ?_⟩
      rw [found, hasValue.ty_eq, SameType.descriptorOf_eq fitting]
      rfl
  | @call own target name tys result dest mode object values value isReceiver hasValues _ calleeEq
      resultEq =>
      rw [List.forall_mem_singleton] at emittable ⊢
      rintro _ ⟨rfl⟩ _ ownerEq callee found
      -- The owner is the class, so the call addresses a method that the class declares.
      have ownEq : own = context.table.method? name := by
        rw [← calleeEq]
        cases target with
        | onClass className =>
            obtain ⟨rfl, rfl⟩ := isReceiver
            exact if_pos (ownPath.unique ownerEq)
        | onObject ty =>
            obtain ⟨rfl, hasObject⟩ := isReceiver
            have hasMembers : HasMembers object.ty := emittable.1.1.1
            have objectEq := eq_classTy_of_hasMembers hasMembers (ownPath.unique ownerEq)
            exact if_pos (hasObject.ty_eq ▸ objectEq)
      subst ownEq
      rw [← resultEq callee found]
      change linkage.paths.signatureOf (values.map Value.ty) result = _
      rw [hasValues.map_ty_eq]
      exact Semantics.signatureOf_eq (fitting callee found) linkage.paths result
  | array =>
      rw [List.forall_mem_cons]
      refine ⟨nofun, ?_⟩
      intro instr member
      obtain ⟨_, _, rfl⟩ := List.mem_map.mp member
      exact nofun
  | newObject className dest =>
      rw [List.forall_mem_cons, List.forall_mem_singleton]
      refine ⟨nofun, ?_⟩
      rintro _ ⟨rfl⟩ notSpecial
      exact absurd rfl notSpecial
  | _ =>
      rw [List.forall_mem_singleton]
      exact nofun

theorem LowersMethod.isDeclared {table : SymbolTable} {decl : MethodDecl}
    {state after : LoweringState} {method : Method} {linkage : Linkage}
    (lowers : LowersMethod table decl state method after)
    (fitting : ∀ signature ∈ table.method? decl.name,
      AllOf (Occurrence.GivesFitting SameType)
        ((Context.mk table signature).bodyOccurrences decl.body))
    (ownPath : HasOwnPath table linkage.paths) (isEmittable : IsEmittable method) :
    ∀ instr ∈ method.body, ∀ ref ∈ memberOf? linkage instr,
      IsDeclared table linkage.paths ref := by
  have allows (signature : MethodSignature) (_ : signature ∈ table.method? decl.name) :
      AllowsSelf ⟨table, signature⟩ True
        ((Context.mk table signature).bodyOccurrences decl.body) := fun _ => trivial
  obtain ⟨signature, code, found, rfl, _, renders⟩ := lowers.exists_renders allows
  intro instr member
  rcases mem_of_mem_completeBody member with inCode | ⟨rfl, _⟩
  · rcases renders.exists_block_of_mem inCode with
      isControl | ⟨occurrence, occurs, block, inside, isBlock, inBlock⟩
    · cases instr with
      | label name => exact nofun
      | goto target => exact nofun
      | _ => exact isControl.elim
    · have emittable (other : Instr) (otherMember : other ∈ block) :=
        isEmittable.emittable other (mem_completeBody_of_mem (inside otherMember))
      exact isBlock.isDeclared (fitting signature found occurrence occurs) ownPath emittable instr
        inBlock
  · exact nofun

/-- The references in a class agree with its declarations. -/
theorem isDeclared_of_mem_classOf {table : SymbolTable} {decls : List MethodDecl}
    {state last : LoweringState} {methods : List Method} {method : Method} {linkage : Linkage}
    (lowers : LowersMethods table decls state methods last)
    (fitting : ∀ decl ∈ decls, ∀ signature ∈ table.method? decl.name,
      AllOf (Occurrence.GivesFitting SameType)
        ((Context.mk table signature).bodyOccurrences decl.body))
    (ownPath : HasOwnPath table linkage.paths) (isEmittable : IsEmittable method)
    (member : method ∈ (classOf table methods).methods) :
    ∀ instr ∈ method.body, ∀ ref ∈ memberOf? linkage instr,
      IsDeclared table linkage.paths ref := by
  rcases List.mem_cons.mp member with rfl | lowered
  · refine List.forall_mem_cons.mpr ⟨?_, List.forall_mem_singleton.mpr nofun⟩
    rintro _ ⟨rfl⟩ notSpecial
    exact absurd rfl notSpecial
  · obtain ⟨decl, declMember, _, _, lowersMethod⟩ := lowers.exists_decl lowered
    exact lowersMethod.isDeclared (fitting decl declMember) ownPath isEmittable

/-- The header of a lowered method shows the signature of a method of the class. -/
theorem LowersMethod.exists_signature {table : SymbolTable} {decl : MethodDecl}
    {state after : LoweringState} {method : Method} {paths : ClassPaths} {name : String}
    {declared : StackCode.MethodDescriptor}
    (lowers : LowersMethod table decl state method after) (standard : HasStandardMain table)
    (declares : (methodHeader paths method).declares? = some (name, declared)) :
    ∃ signature, table.method? name = some signature ∧
      declared = paths.signatureOf (signature.params.map Symbol.ty) signature.returnTy := by
  cases lowers with
  | @intro signature _ last code found _ =>
      have nameEq : signature.name = decl.name := by simpa using List.find?_some found
      rw [← nameEq] at found
      have isMethod : ¬(methodOf signature last.scope.temps code).isConstructor = true :=
        Bool.false_ne_true
      rw [methodHeader, if_neg isMethod] at declares
      split at declares
      · next isMain =>
          cases declares
          have isEntry := Bool.and_eq_true_iff.mp isMain
          have mainEq : signature.name = "main" := beq_iff_eq.mp isEntry.1
          rw [mainEq] at found
          obtain ⟨paramsEq, returnEq⟩ := standard signature found isEntry.2
          refine ⟨signature, found, ?_⟩
          rw [Semantics.signatureOf_eq paramsEq, returnEq]
          rfl
      · cases declares
        exact ⟨signature, found, rfl⟩

end ClassCompiler.ThreeAddress

namespace ClassCompiler

open Semantics (GivesFitting HasStandardMain SameOrParent SameType)
open StackCode (LinksMembers)

/-- A class links if its values have the declared types of the fields and parameters to
which they are given. -/
theorem links_members_of_compile {options : Options} {table : SymbolTable} {program : Program}
    {compiled : Compiled} (run : compile options table program = .ok compiled)
    (plain : '/' ∉ table.className.toList) (standard : HasStandardMain table)
    (fitting : GivesFitting SameType table program) :
    ∃ file, compiled.IsWritten options file ∧ LinksMembers file := by
  obtain ⟨unit, assembly⟩ := compiled
  obtain ⟨lowered, file, ⟨last, generated⟩, assemblyEq⟩ := compile_eq_ok_iff.mp run
  obtain ⟨methods, _, lowers, unitEq⟩ := ThreeAddress.exists_lowersMethods_of_lowerFresh lowered
  obtain ⟨_, codes, generates, rfl⟩ := StackCode.generateClass_eq_ok_iff.mp generated
  refine ⟨_, ⟨⟨last, generated⟩, assemblyEq⟩, ?_⟩
  subst unitEq
  have ownPath : ThreeAddress.HasOwnPath table
      (StackCode.ClassPaths.ofClass (ThreeAddress.classOf table methods)) :=
    ⟨StackCode.classPath_name _, StackCode.eq_of_classPath_eq plain⟩
  have isDeclared {code : StackCode.MethodCode} {instr : StackCode.Instr}
      {ref : StackCode.MemberRef} (member : code ∈ codes) (inLines : .instr instr ∈ code.lines)
      (names : instr.member? = some ref) : ThreeAddress.IsDeclared table
        (StackCode.ClassPaths.ofClass (ThreeAddress.classOf table methods)) ref := by
    obtain ⟨method, methodMember, _, _, generatesMethod⟩ := generates.exists_method member
    obtain ⟨⟨isEmittable, _⟩, rfl, _⟩ :=
      StackCode.generateMethod_eq_ok_iff_generatedMethod.mp generatesMethod
    obtain ⟨origin, originMember, _, part⟩ := StackCode.exists_part_of_mem_bodyCode inLines
    exact ThreeAddress.isDeclared_of_mem_classOf lowers fitting ownPath isEmittable methodMember
      origin originMember ref (part.memberOf?_eq_some names)
  constructor
  · intro code member instr owner name descriptor inLines names
    obtain ⟨ownerEq, declared⟩ := isDeclared member inLines names
    refine ⟨ownerEq, ?_⟩
    rw [← declared]
    exact StackCode.lookup_fields _ _ _
  · intro code member instr mode name descriptor inLines names notSpecial other otherMember
      declared declares
    obtain ⟨method, methodMember, _, _, generatesMethod⟩ := generates.exists_method otherMember
    obtain ⟨_, rfl, _⟩ := StackCode.generateMethod_eq_ok_iff_generatedMethod.mp generatesMethod
    rcases List.mem_cons.mp methodMember with rfl | later
    · cases declares
    · obtain ⟨_, _, _, _, lowersMethod⟩ := lowers.exists_decl later
      obtain ⟨signature, found, declaredEq⟩ := lowersMethod.exists_signature standard declares
      rw [declaredEq]
      exact isDeclared member inLines names notSpecial rfl signature found

/-- Fields of three types, and calls with collected arguments. -/
theorem links_members_ledgerProgram :
    '/' ∉ "Ledger".toList ∧ HasStandardMain (.ofProgram ledgerProgram) ∧
      GivesFitting SameType (.ofProgram ledgerProgram) ledgerProgram ∧
      ∃ compiled, compile {} (.ofProgram ledgerProgram) ledgerProgram = .ok compiled ∧
        ∃ file, compiled.IsWritten {} file ∧ LinksMembers file := by
  have plain : '/' ∉ "Ledger".toList := by decide
  have standard : HasStandardMain (.ofProgram ledgerProgram) := by decide +kernel
  have fitting : GivesFitting SameType (.ofProgram ledgerProgram) ledgerProgram := by
    decide +kernel
  obtain ⟨compiled, run⟩ := exists_compile_ledgerProgram {}
  exact ⟨plain, standard, fitting, compiled, run,
    links_members_of_compile run plain standard fitting⟩

/-- A class that keeps its object in a field of the type of its parent. -/
def chainProgram : Program where
  imports := ["Book"]
  decl := {
    name := "Ledger"
    superClass := some "Book"
    fields := [⟨"next", Ty.named "Book"⟩]
    methods := [{
      name := "link"
      returnTy := Ty.void
      params := []
      locals := []
      body := [.assign (.var "next") .self]
      isStatic := false
      isPublic := true }] }

/-- The method of the class in three-address code. -/
def chainLinkMethod : ThreeAddress.Method where
  name := "link"
  returnTy := Ty.void
  body := [.putField (.self (Ty.named "Ledger")) "next" (.self (Ty.named "Ledger")), .ret none]

/-- An object of the class is put into the field with the descriptor of the class, while
the field is declared with that of the parent. -/
theorem not_links_members_chainProgram :
    GivesFitting (SameOrParent (.ofProgram chainProgram)) (.ofProgram chainProgram)
        chainProgram ∧
      ∃ compiled, compile {} (.ofProgram chainProgram) chainProgram = .ok compiled ∧
        ∀ file, compiled.IsWritten {} file → ¬LinksMembers file := by
  have compilable : IsCompilable (.ofProgram chainProgram) chainProgram := by decide +kernel
  obtain ⟨compiled, run⟩ := exists_compile_iff.mpr compilable
  refine ⟨by decide +kernel, compiled, run, ?_⟩
  rintro file ⟨⟨after, generated⟩, _⟩ links
  have lowered := (compile_eq_ok_iff.mp run).1
  have unitEq : compiled.unit = ThreeAddress.classOf (.ofProgram chainProgram) [chainLinkMethod] :=
    (Except.ok.inj lowered).symm
  rw [unitEq] at generated
  obtain ⟨_, codes, generates, rfl⟩ := StackCode.generateClass_eq_ok_iff.mp generated
  cases generates with
  | cons _ rest =>
      cases rest with
      | cons second _ =>
          obtain ⟨_, rfl, _⟩ := StackCode.generateMethod_eq_ok_iff_generatedMethod.mp second
          have same : some (StackCode.Descriptor.object "Book") = some (.object "Ledger") :=
            (links.fields _ (List.mem_cons_of_mem _ List.mem_cons_self)
              (.putField "Ledger" "next" (.object "Ledger")) _ _ _
              (@List.mem_of_getElem? _ _ 2 _ rfl) rfl).2
          exact absurd same (by decide)

end ClassCompiler
