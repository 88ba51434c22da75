import ClassCompiler.Proofs.Lowering.Inversion
import ClassCompiler.Proofs.Names
import Mathlib.Data.List.Dedup
import Mathlib.Order.Bounds.Defs

/-!
# Allocation of temporaries

A temporary is found by a search. Each turn names a candidate by the counter and raises the
counter, until a candidate has the name of no parameter, local or field. Candidates differ,
so they cannot all be declared if there are more of them than declared names: the search
ends, and with the least number that is free. A counter of 32 bits does not wrap on the
way, if it is that far from its limit.
-/

namespace ClassCompiler

namespace NameSupply

variable {taken : List String}

/-! ## Free numbers -/

/-- The names of the numbers that are passed over are taken. -/
theorem tempName_mem_of_lt_freeNumber {start number : Nat} (lower : start ≤ number)
    (upper : number < freeNumber taken start) : tempName number ∈ taken := by
  unfold freeNumber at upper
  cases found : (List.range' start taken.length).find?
      (fun number => !taken.contains (tempName number)) with
  | none =>
      rw [found, Option.getD_none] at upper
      have inRange : number ∈ List.range' start taken.length := List.mem_range'_1.mpr ⟨lower, upper⟩
      simpa using List.find?_eq_none.mp found number inRange
  | some free =>
      rw [found, Option.getD_some] at upper
      simpa using (List.find?_range'_eq_some.mp found).2.2 number lower upper

theorem isLeast_freeNumber (taken : List String) (start : Nat) :
    IsLeast {number | start ≤ number ∧ tempName number ∉ taken} (freeNumber taken start) := by
  refine ⟨⟨le_freeNumber taken start, tempName_freeNumber_not_mem taken start⟩, ?_⟩
  rintro number ⟨lower, free⟩
  by_contra passed
  exact free (tempName_mem_of_lt_freeNumber lower (Nat.lt_of_not_le passed))

/-- No more numbers are passed over than there are different names taken. -/
theorem freeNumber_le (taken : List String) (start : Nat) :
    freeNumber taken start ≤ start + taken.dedup.length := by
  obtain ⟨number, inRange, free⟩ := exists_tempName_not_mem taken.dedup start
  rw [List.mem_range'_1] at inRange
  rw [List.mem_dedup] at free
  have least : freeNumber taken start ≤ number :=
    (isLeast_freeNumber taken start).2 ⟨inRange.1, free⟩
  omega

/-! ## The search -/

/-- The search for a free name with a counter of 32 bits, from the counter before it to the
name that is found and the counter after it. A turn takes the name of the counter and
raises the counter, and there is another turn if the name is taken. -/
inductive Search (taken : List String) : UInt32 → String → UInt32 → Prop where
  | found {counter : UInt32} (free : tempName counter.toNat ∉ taken) :
      Search taken counter (tempName counter.toNat) (counter + 1)
  | again {counter last : UInt32} {name : String} (passed : tempName counter.toNat ∈ taken)
      (others : Search taken (counter + 1) name last) : Search taken counter name last

/-- A search ends in one way only. -/
theorem Search.unique {counter last otherLast : UInt32} {name other : String}
    (search : Search taken counter name last) (again : Search taken counter other otherLast) :
    name = other ∧ last = otherLast := by
  induction search with
  | found free =>
      cases again with
      | found => exact ⟨rfl, rfl⟩
      | again passed => exact absurd passed free
  | again passed _ ih =>
      cases again with
      | found free => exact absurd passed free
      | again _ others => exact ih others

section

variable {start : Nat} (room : start < UInt32.size)

include room

/-- A turn at a number whose name is free is the last one. -/
theorem search_of_free (free : tempName start ∉ taken) :
    Search taken (UInt32.ofNat start) (tempName start) (UInt32.ofNat (start + 1)) := by
  have counterEq : (UInt32.ofNat start).toNat = start := UInt32.toNat_ofNat_of_lt' room
  have search : Search taken (UInt32.ofNat start) _ _ := .found (by rwa [counterEq])
  rwa [counterEq, ← UInt32.ofNat_one, ← UInt32.ofNat_add] at search

/-- A turn at a number whose name is taken goes on with the next number. -/
theorem search_of_mem (passed : tempName start ∈ taken) {name : String} {last : UInt32}
    (others : Search taken (UInt32.ofNat (start + 1)) name last) :
    Search taken (UInt32.ofNat start) name last := by
  have counterEq : (UInt32.ofNat start).toNat = start := UInt32.toNat_ofNat_of_lt' room
  rw [UInt32.ofNat_add, UInt32.ofNat_one] at others
  exact .again (by rwa [counterEq]) others

end

/-- A search goes through the numbers whose names are taken and ends behind them. -/
theorem search_of_passed (distance start : Nat)
    (passed : ∀ number, start ≤ number → number < start + distance → tempName number ∈ taken)
    (free : tempName (start + distance) ∉ taken) (room : start + distance < UInt32.size) :
    Search taken (UInt32.ofNat start) (tempName (start + distance))
      (UInt32.ofNat (start + distance + 1)) := by
  induction distance generalizing start with
  | zero => exact search_of_free room free
  | succ distance ih =>
      have shift : start + (distance + 1) = start + 1 + distance := by omega
      rw [shift] at passed free room ⊢
      refine search_of_mem (by omega) (passed start (Nat.le_refl _) (by omega)) ?_
      exact ih (start + 1) (fun number lower => passed number (by omega)) free room

/-- A search ends with the least free number, if the counter is further from its limit than
there are different names taken. -/
theorem search_iff {start : Nat} (room : start + taken.dedup.length < UInt32.size - 1)
    {name : String} {last : UInt32} :
    Search taken (UInt32.ofNat start) name last ↔
      name = tempName (freeNumber taken start) ∧ last.toNat = freeNumber taken start + 1 := by
  have lower := le_freeNumber taken start
  have upper := freeNumber_le taken start
  obtain ⟨distance, distanceEq⟩ := Nat.exists_eq_add_of_le lower
  have lastEq : (UInt32.ofNat (freeNumber taken start + 1)).toNat = freeNumber taken start + 1 :=
    UInt32.toNat_ofNat_of_lt' (by omega)
  have search : Search taken (UInt32.ofNat start) (tempName (freeNumber taken start))
      (UInt32.ofNat (freeNumber taken start + 1)) := by
    rw [distanceEq]
    apply search_of_passed distance start
    · intro number above below
      exact tempName_mem_of_lt_freeNumber above (by omega)
    · rw [← distanceEq]
      exact tempName_freeNumber_not_mem taken start
    · omega
  constructor
  · intro other
    obtain ⟨rfl, rfl⟩ := other.unique search
    exact ⟨rfl, lastEq⟩
  · rintro ⟨rfl, otherEq⟩
    rw [← UInt32.toNat_inj.mp (lastEq.trans otherEq.symm)]
    exact search

end NameSupply

namespace ThreeAddress

open Lowering NameSupply

/-- A temporary takes the least number from the counter on whose name is that of no
parameter, local or field. It is added to the temporaries of the scope, the counter goes
past its number, and nothing else changes. The search for it ends, and in this way, if the
counter is further from the limit of 32 bits than there are different names declared. -/
theorem freshTemp_takes_least_number (table : SymbolTable) (ty : Ty) (state : LoweringState) :
    let signature := state.scope.signature
    let declared := (signature.params ++ signature.locals ++ table.fields).map Symbol.name
    ∃ number,
      IsLeast {number | state.names.temps ≤ number ∧ tempName number ∉ declared} number ∧
      freshTemp table ty state = .ok (.temp (tempName number) ty)
        { state with
          names.temps := number + 1
          scope.temps := state.scope.temps ++ [⟨tempName number, ty⟩] } ∧
      (state.names.temps + declared.dedup.length < UInt32.size - 1 →
        ∀ name last, Search declared (UInt32.ofNat state.names.temps) name last ↔
          name = tempName number ∧ last.toNat = number + 1) :=
  ⟨freeNumber _ state.names.temps, isLeast_freeNumber _ _, freshTemp_apply table ty state,
    fun room _ _ => search_iff room⟩

/-- The table of a class that has a field with the name of a temporary. -/
def crowdTable : SymbolTable where
  className := "Crowd"
  fields := [⟨"tmp9", Ty.int⟩, ⟨"tmp8", Ty.boolean⟩]

/-- A state in a method whose variables have names of temporaries. -/
def crowdState : LoweringState where
  names := { temps := 7, ifThen := 2, ifEnd := 2 }
  scope := {
    signature := {
      name := "enter"
      returnTy := Ty.int
      params := [⟨"tmp8", Ty.int⟩, ⟨"tmp12", Ty.int⟩]
      locals := [⟨"tmp7", Ty.boolean⟩] }
    temps := [⟨"tmp6", Ty.int⟩] }

theorem freshTemp_takes_least_number_crowd :
    7 + ["tmp8", "tmp12", "tmp7", "tmp9", "tmp8"].dedup.length < UInt32.size - 1 ∧
      freshTemp crowdTable Ty.int crowdState = .ok (.temp "tmp10" Ty.int)
        { crowdState with
          names.temps := 11
          scope.temps := [⟨"tmp6", Ty.int⟩, ⟨"tmp10", Ty.int⟩] } ∧
      ∃ last, Search ["tmp8", "tmp12", "tmp7", "tmp9", "tmp8"] 7 "tmp10" last ∧
        last.toNat = 11 := by
  have room : 7 + ["tmp8", "tmp12", "tmp7", "tmp9", "tmp8"].dedup.length < UInt32.size - 1 := by
    decide
  have run : freshTemp crowdTable Ty.int crowdState = .ok (.temp "tmp10" Ty.int)
      { crowdState with
        names.temps := 11
        scope.temps := [⟨"tmp6", Ty.int⟩, ⟨"tmp10", Ty.int⟩] } := by rfl
  obtain ⟨number, _, taken, searches⟩ := freshTemp_takes_least_number crowdTable Ty.int crowdState
  obtain ⟨_, stateEq⟩ := EStateM.Result.ok.inj (taken.symm.trans run)
  have numberEq : number + 1 = 11 := congrArg (fun state => state.names.temps) stateEq
  cases numberEq
  exact ⟨room, run, 11, (searches room "tmp10" 11).mpr ⟨rfl, rfl⟩, rfl⟩

end ThreeAddress

end ClassCompiler
