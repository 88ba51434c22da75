import ClassCompiler.Proofs.Emission.Classes
import ClassCompiler.Proofs.Lowering.Faults
import ClassCompiler.Proofs.Lowering.Programs

/-!
# Names of temporaries

A lowering session is a sequence of requests for methods and for expressions in the
scope of the method last entered. Some of them may fail, and the next one goes on from
the state in which they did. The number of a temporary is never given out again, and its
name is that of no variable in its scope and of no field. So the temporaries of a session
have distinct names, and a method whose variables are distinct has distinct slots.
-/

namespace ClassCompiler.ThreeAddress

open Effects
open StackCode (slotNames)

variable {table : SymbolTable}

/-! ## Requests -/

/-- What lowering can be asked for: a method, or the value of an expression. -/
inductive Request where
  | method (decl : MethodDecl)
  | value (expr : Expr) (expected : Ty)
deriving Repr, Inhabited

/-- The state and the temporaries that a request leaves behind. -/
structure Served where
  after : LoweringState
  temps : List Symbol
deriving Repr, Inhabited

namespace Request

/-- The state in which a request begins. A method is entered if it has a signature. -/
def entry (table : SymbolTable) (state : LoweringState) : Request → LoweringState
  | .method decl =>
      match table.method? decl.name with
      | some signature => state.entering signature
      | none => state
  | .value _ _ => state

/-- Carry a request out. It has taken the temporaries that were added to the scope since
it began, and a lowered method has taken them out of the scope. -/
def serve (table : SymbolTable) (state : LoweringState) (request : Request) : Served :=
  let added (after : LoweringState) : List Symbol :=
    after.scope.temps.drop (request.entry table state).scope.temps.length
  match request with
  | .method decl =>
      match lowerMethod table decl state with
      | .ok lowered after => ⟨after, lowered.temps⟩
      | .error _ after => ⟨after, added after⟩
  | .value expr expected =>
      match lowerExpr table expr expected state with
      | .ok _ after => ⟨after, added after⟩
      | .error _ after => ⟨after, added after⟩

theorem names_entry (request : Request) (state : LoweringState) :
    (request.entry table state).names = state.names := by
  cases request with
  | value => rfl
  | method decl =>
      rw [entry]
      cases table.method? decl.name <;> rfl

/-- Whether a request succeeds or fails, it takes temporaries in the scope in which it
begins. -/
theorem exists_takesTemps (request : Request) (state : LoweringState) :
    ∃ last, TakesTemps table (request.entry table state) last (request.serve table state).temps ∧
      (request.serve table state).after.names = last.names ∧
      (request.serve table state).after.scope.signature = last.scope.signature := by
  cases request with
  | value expr expected =>
      have checks : Checks (state.context table) _ _ (lowerExpr table expr expected) :=
        checks_lowerExpr expr expected
      have outcome := checks state rfl
      rw [serve]
      cases run : lowerExpr table expr expected state with
      | ok lowered after =>
          have draws : Draws table state after := (outcome.of_ok run).1
          exact ⟨after, draws.takesTemps_drop, rfl, rfl⟩
      | error error after =>
          have draws : Draws table state after := (outcome.of_error run).1
          exact ⟨after, draws.takesTemps_drop, rfl, rfl⟩
  | method decl =>
      rw [serve, entry]
      cases found : table.method? decl.name with
      | none =>
          have run : lowerMethod table decl state =
              .error (.unresolvedSymbol decl.name decl.name) state := by
            unfold lowerMethod
            rw [found]
            rfl
          rw [run]
          simp only [List.drop_length]
          exact ⟨state, .refl state, rfl, rfl⟩
      | some signature =>
          have outcome := outcome_lowerMethod found state
          cases run : lowerMethod table decl state with
          | ok lowered after =>
              obtain ⟨⟨last, draws, tempsEq, rfl⟩, _⟩ := outcome.of_ok run
              simp only [tempsEq]
              exact ⟨last, draws.takesTemps_drop, rfl, rfl⟩
          | error error after =>
              obtain ⟨draws, _⟩ := outcome.of_error run
              exact ⟨after, draws.takesTemps_drop, rfl, rfl⟩

end Request

/-! ## Sessions -/

/-- A temporary with the signature of the method in whose scope it was taken. -/
structure Taken where
  scope : MethodSignature
  temp : Symbol
deriving DecidableEq, Repr, Inhabited

/-- The name of a temporary that was taken. -/
def Taken.name (taken : Taken) : String := taken.temp.name

/-- The names of what a temporary can be mixed up with: the parameters and locals of its
method, and the fields. -/
def Taken.others (table : SymbolTable) (taken : Taken) : List String :=
  (taken.scope.params ++ taken.scope.locals ++ table.fields).map Symbol.name

/-- All temporaries that are taken while requests are carried out one after the other. -/
def session (table : SymbolTable) : List Request → LoweringState → List Taken
  | [], _ => []
  | request :: rest, state =>
      let served := request.serve table state
      served.temps.map (Taken.mk served.after.scope.signature) ++ session table rest served.after

/-- Temporaries that have distinct names, with numbers between two bounds, and that differ
from variables and fields. -/
structure AreFresh (table : SymbolTable) (start stop : Nat) (taken : List Taken) : Prop where
  ordered : start ≤ stop
  distinct : (taken.map Taken.name).Nodup
  numbered : ∀ one ∈ taken, ∃ number, one.name = tempName number ∧ start ≤ number ∧ number < stop
  apart : ∀ one ∈ taken, one.name ∉ one.others table

theorem AreFresh.nil (start : Nat) : AreFresh table start start [] where
  ordered := Nat.le_refl start
  distinct := List.nodup_nil
  numbered := List.forall_mem_nil _
  apart := List.forall_mem_nil _

/-- Temporaries that were taken later have other numbers. -/
theorem AreFresh.append {start middle stop : Nat} {earlier later : List Taken}
    (first : AreFresh table start middle earlier) (second : AreFresh table middle stop later) :
    AreFresh table start stop (earlier ++ later) where
  ordered := first.ordered.trans second.ordered
  distinct := by
    rw [List.map_append]
    apply List.Nodup.append first.distinct second.distinct
    intro name inFirst inSecond
    obtain ⟨one, oneMember, rfl⟩ := List.mem_map.mp inFirst
    obtain ⟨other, otherMember, same⟩ := List.mem_map.mp inSecond
    obtain ⟨number, oneEq, _, upper⟩ := first.numbered one oneMember
    obtain ⟨otherNumber, otherEq, lower, _⟩ := second.numbered other otherMember
    rw [oneEq, otherEq, tempName_inj] at same
    omega
  numbered := by
    intro one member
    rcases List.mem_append.mp member with inFirst | inSecond
    · obtain ⟨number, nameEq, lower, upper⟩ := first.numbered one inFirst
      exact ⟨number, nameEq, lower, Nat.lt_of_lt_of_le upper second.ordered⟩
    · obtain ⟨number, nameEq, lower, upper⟩ := second.numbered one inSecond
      exact ⟨number, nameEq, first.ordered.trans lower, upper⟩
  apart := List.forall_mem_append.mpr ⟨first.apart, second.apart⟩

/-- What one request takes is fresh. -/
theorem Request.areFresh_serve (request : Request) (state : LoweringState) :
    AreFresh table state.names.temps (request.serve table state).after.names.temps
      ((request.serve table state).temps.map
        (Taken.mk (request.serve table state).after.scope.signature)) := by
  obtain ⟨last, takes, namesEq, signatureEq⟩ := @exists_takesTemps table request state
  rw [namesEq, signatureEq, takes.grows.signature, ← @names_entry table request state]
  constructor
  · exact takes.grows.temps
  · rw [List.map_map]
    exact takes.distinct
  · intro one member
    obtain ⟨temp, tempMember, rfl⟩ := List.mem_map.mp member
    obtain ⟨number, nameEq, lower, upper, _⟩ :=
      takes.numbered temp.name (List.mem_map_of_mem tempMember)
    exact ⟨number, nameEq, lower, upper⟩
  · intro one member
    obtain ⟨temp, tempMember, rfl⟩ := List.mem_map.mp member
    obtain ⟨_, _, _, _, free⟩ := takes.numbered temp.name (List.mem_map_of_mem tempMember)
    exact free

/-- What a session takes is fresh. -/
theorem exists_areFresh_session (requests : List Request) (state : LoweringState) :
    ∃ stop, AreFresh table state.names.temps stop (session table requests state) := by
  induction requests generalizing state with
  | nil => exact ⟨_, .nil _⟩
  | cons request rest ih =>
      obtain ⟨stop, others⟩ := ih (request.serve table state).after
      exact ⟨stop, (request.areFresh_serve state).append others⟩

/-- The temporaries of lowered methods are those of a session that asks for them. -/
theorem map_name_session {decls : List MethodDecl} {state after : LoweringState}
    {methods : List Method} (run : lowerMethods table decls state = .ok methods after) :
    (session table (decls.map .method) state).map Taken.name =
      methods.flatMap fun method => method.temps.map Symbol.name := by
  induction decls generalizing state methods with
  | nil =>
      cases run
      rfl
  | cons decl rest ih =>
      rw [lowerMethods] at run
      obtain ⟨method, middle, lowersFirst, others⟩ := bind_eq_ok_iff.mp run
      obtain ⟨restMethods, last, lowersRest, taken⟩ := bind_eq_ok_iff.mp others
      cases taken
      have servedEq : (Request.method decl).serve table state = ⟨middle, method.temps⟩ := by
        rw [Request.serve, lowersFirst]
      rw [List.map_cons, session, servedEq, List.map_append, List.map_map,
        ih lowersRest]
      rfl

/-! ## Variables -/

theorem tempName_ne_self (number : Nat) : tempName number ≠ "this" := by
  intro same
  have charsEq := congrArg String.toList same
  simp [tempName] at charsEq

theorem slotNames_methodOf (signature : MethodSignature) (temps : List Symbol) (code : Code) :
    slotNames (methodOf signature temps code) =
      (if signature.isStatic then [] else ["this"]) ++
        ((signature.params ++ signature.locals).map Symbol.name ++ temps.map Symbol.name) := by
  rw [slotNames, Method.allVariables, List.map_append]
  rfl

section

variable {signature : MethodSignature} {temps : List Symbol} {state after : LoweringState}

/-- The variables of a method have distinct names if those that it declares do, since
temporaries are named apart from them. -/
theorem nodup_variables
    (distinct : ((signature.params ++ signature.locals).map Symbol.name).Nodup)
    (takes : TakesTemps table (state.entering signature) after temps) :
    ((signature.params ++ signature.locals).map Symbol.name ++ temps.map Symbol.name).Nodup := by
  apply distinct.append takes.distinct
  intro name declared isTemp
  obtain ⟨_, _, _, _, free⟩ := takes.numbered name isTemp
  apply free
  rw [Scope.takenNames, List.map_append]
  exact List.mem_append_left _ declared

theorem nodup_slotNames {code : Code}
    (distinct : ((signature.params ++ signature.locals).map Symbol.name).Nodup)
    (notSelf : signature.isStatic = false →
      "this" ∉ (signature.params ++ signature.locals).map Symbol.name)
    (takes : TakesTemps table (state.entering signature) after temps) :
    (slotNames (methodOf signature temps code)).Nodup := by
  have apart := nodup_variables distinct takes
  have noTempIsSelf : "this" ∉ temps.map Symbol.name := by
    intro member
    obtain ⟨number, nameEq, _⟩ := takes.numbered "this" member
    exact tempName_ne_self number nameEq.symm
  have selfIsNew (isInstance : signature.isStatic = false) :
      "this" ∉ (signature.params ++ signature.locals).map Symbol.name ++ temps.map Symbol.name :=
    List.not_mem_append (notSelf isInstance) noTempIsSelf
  rw [slotNames_methodOf]
  cases isStatic : signature.isStatic with
  | true => exact apart
  | false => exact List.nodup_cons.mpr ⟨selfIsNew isStatic, apart⟩

end

/-- The variables of a lowered method are distinct if those that it declares are, and its
frame then has no variable twice. -/
theorem LowersMethod.distinct {decl : MethodDecl} {state after : LoweringState} {method : Method}
    (lowers : LowersMethod table decl state method after)
    (distinct : ((method.params ++ method.locals).map Symbol.name).Nodup) :
    (method.allVariables.map Symbol.name).Nodup ∧
      ((method.isStatic = false → "this" ∉ (method.params ++ method.locals).map Symbol.name) →
        (slotNames method).Nodup) := by
  cases lowers with
  | @intro signature _ last code found lowersBody =>
      have takes := lowersBody.takesTemps
      have tempsEq : last.scope.temps = definedTemps code := takes.scope_eq
      rw [← tempsEq] at takes
      constructor
      · rw [Method.allVariables, List.map_append]
        exact nodup_variables distinct takes
      · intro notSelf
        exact nodup_slotNames distinct notSelf takes

theorem isDistinct_of_lowerProgram {program : Program} {state after : LoweringState}
    {unit : ClassUnit} (run : lowerProgram table program state = .ok unit after) {method : Method}
    (member : method ∈ unit.methods)
    (distinct : ((method.params ++ method.locals).map Symbol.name).Nodup) :
    (method.allVariables.map Symbol.name).Nodup ∧
      ((method.isStatic = false → "this" ∉ (method.params ++ method.locals).map Symbol.name) →
        (slotNames method).Nodup) := by
  obtain ⟨methods, lowers, rfl⟩ := lowerProgram_eq_ok_iff.mp run
  rcases List.mem_cons.mp member with rfl | lowered
  · exact ⟨List.nodup_nil, fun _ => List.nodup_singleton "this"⟩
  · obtain ⟨decl, _, start, last, lowersMethod⟩ :=
      (lowersMethods_of_eq_ok lowers).exists_decl lowered
    exact lowersMethod.distinct distinct

end ClassCompiler.ThreeAddress

namespace ClassCompiler

open StackCode (Frame)
open ThreeAddress (Request Taken lowerProgram session)

/-- The temporaries of a session have distinct names, and none has that of a parameter or
a local of its method or of a field. The temporaries of a class are therefore distinct,
and a method that declares its variables once has no variable twice. -/
theorem temporaries_are_fresh (table : SymbolTable) :
    (∀ requests state, ((session table requests state).map Taken.name).Nodup ∧
      ∀ taken ∈ session table requests state,
        taken.name ∉ (taken.scope.params ++ taken.scope.locals ++ table.fields).map Symbol.name) ∧
    ∀ program state unit after, lowerProgram table program state = .ok unit after →
      (unit.methods.flatMap fun method => method.temps.map Symbol.name).Nodup ∧
      ∀ method ∈ unit.methods, ((method.params ++ method.locals).map Symbol.name).Nodup →
        ((method.params ++ method.locals ++ method.temps).map Symbol.name).Nodup ∧
        ((method.isStatic = false → "this" ∉ (method.params ++ method.locals).map Symbol.name) →
          ∀ name owner, (Frame.ofMethod method : Except CompileError (Frame StackCode.Instr)) ≠
            .error (.internal (.declaredTwice name owner))) := by
  constructor
  · intro requests state
    obtain ⟨stop, fresh⟩ := ThreeAddress.exists_areFresh_session requests state
    exact ⟨fresh.distinct, fresh.apart⟩
  · intro program state unit after run
    constructor
    · obtain ⟨methods, lowers, rfl⟩ := ThreeAddress.lowerProgram_eq_ok_iff.mp run
      obtain ⟨stop, fresh⟩ := ThreeAddress.exists_areFresh_session _ state
      rw [ThreeAddress.classOf, List.flatMap_cons, ← ThreeAddress.map_name_session lowers]
      exact fresh.distinct
    · intro method member distinct
      obtain ⟨variablesDiffer, slotsDiffer⟩ :=
        ThreeAddress.isDistinct_of_lowerProgram run member distinct
      refine ⟨variablesDiffer, ?_⟩
      intro notSelf name owner failed
      rcases StackCode.ofMethod_eq_error failed with isOther | ⟨_, _, repeated⟩
      · cases isOther
      · exact repeated (slotsDiffer notSelf)

/-- A method whose variables have names like those of temporaries. -/
def meterScaleDecl : MethodDecl where
  name := "scale"
  returnTy := Ty.int
  params := [⟨"tmp2", Ty.int⟩]
  locals := [⟨"tmp4", Ty.int⟩]
  body := [
    .assign (.var "tmp4") (.binary (.arith .mul) (.var "tmp0") (.var "tmp2")),
    .ret (some (.binary (.arith .add) (.var "tmp4")
      (.binary (.arith .mul) (.var "tmp0") (.int 2))))]
  isStatic := false
  isPublic := true

/-- A class whose field has the name of a temporary. -/
def meterProgram : Program where
  imports := []
  decl := {
    name := "Meter"
    superClass := none
    fields := [⟨"tmp0", Ty.int⟩]
    methods := [meterScaleDecl] }

/-- Requests of which the first and the third fail midway. -/
def meterRequests : List Request := [
  .value (.binary (.arith .add) (.binary (.arith .mul) (.var "tmp0") (.int 2)) (.var "scale"))
    Ty.int,
  .method meterScaleDecl,
  .method { meterScaleDecl with body := [.expr (.not (.bool true)), .expr (.var "scale")] },
  .value (.binary (.compare .less) (.var "tmp0") (.var "tmp4")) Ty.boolean]

/-- The names that the class and its method declare are passed over, and those of requests
that fail are not given out again. -/
theorem temporaries_are_fresh_meter :
    (session (.ofProgram meterProgram) meterRequests {}).map Taken.name =
        ["tmp1", "tmp2", "tmp3", "tmp5", "tmp6", "tmp7", "tmp8", "tmp9", "tmp10"] ∧
      ((session (.ofProgram meterProgram) meterRequests {}).map Taken.name).Nodup ∧
      ∃ unit after, lowerProgram (.ofProgram meterProgram) meterProgram {} = .ok unit after ∧
        (unit.methods.flatMap fun method => method.temps.map Symbol.name).Nodup ∧
        ∀ method ∈ unit.methods,
          ((method.params ++ method.locals ++ method.temps).map Symbol.name).Nodup ∧
          ∀ name owner, (Frame.ofMethod method : Except CompileError (Frame StackCode.Instr)) ≠
            .error (.internal (.declaredTwice name owner)) := by
  obtain ⟨sessions, classes⟩ := temporaries_are_fresh (.ofProgram meterProgram)
  obtain ⟨unit, lowered, declaredOnce⟩ :
      ∃ unit, ThreeAddress.lowerFresh (.ofProgram meterProgram) meterProgram = .ok unit ∧
        ∀ method ∈ unit.methods, ((method.params ++ method.locals).map Symbol.name).Nodup ∧
          "this" ∉ (method.params ++ method.locals).map Symbol.name := ⟨_, rfl, by decide⟩
  obtain ⟨after, run⟩ := ThreeAddress.lowerFresh_eq_ok_iff.mp lowered
  obtain ⟨distinct, methods⟩ := classes _ _ _ _ run
  refine ⟨by decide +kernel, (sessions meterRequests {}).1, unit, after, run, distinct, ?_⟩
  intro method member
  obtain ⟨once, notSelf⟩ := declaredOnce method member
  obtain ⟨variablesDiffer, framed⟩ := methods method member once
  exact ⟨variablesDiffer, framed fun _ => notSelf⟩

end ClassCompiler
