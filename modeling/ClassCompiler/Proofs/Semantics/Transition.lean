/-!
# Runs of a machine

A machine goes from configuration to configuration until it stops with a result.
Its step is a function, so a configuration has at most one result. Two machines
agree on their results if every step of the first is matched by at least one step
of the second.
-/

namespace ClassCompiler.Semantics

/-- What a step leads to: another configuration, or a result. -/
inductive Progress (C R : Type) where
  | next (config : C)
  | stop (result : R)
deriving Repr

/-- Exactly `n` steps lead from one configuration to another. -/
inductive Steps {C R : Type} (step : C → Progress C R) : Nat → C → C → Prop where
  | refl (config : C) : Steps step 0 config config
  | head {n : Nat} {config middle last : C} :
      step config = .next middle → Steps step n middle last → Steps step (n + 1) config last

/-- The machine stops with a result after `n` steps. -/
def StopsIn {C R : Type} (step : C → Progress C R) (n : Nat) (config : C) (result : R) : Prop :=
  ∃ last, Steps step n config last ∧ step last = .stop result

/-- The machine stops with a result. -/
def Stops {C R : Type} (step : C → Progress C R) (config : C) (result : R) : Prop :=
  ∃ n, StopsIn step n config result

variable {C R : Type} {step : C → Progress C R}

theorem Steps.single {config next : C} (stepEq : step config = .next next) :
    Steps step 1 config next :=
  .head stepEq (.refl next)

/-- Runs can be joined; their lengths add. -/
theorem Steps.trans {m n : Nat} {config middle last : C} (first : Steps step m config middle)
    (second : Steps step n middle last) : Steps step (m + n) config last := by
  induction first with
  | refl => simpa using second
  | @head k config between middle stepEq _ ih =>
      rw [Nat.add_right_comm]
      exact .head stepEq (ih second)

/-- A configuration at which the machine stops leads nowhere else. -/
theorem StopsIn.of_stop {config : C} {result : R} (stopEq : step config = .stop result) :
    StopsIn step 0 config result :=
  ⟨config, .refl config, stopEq⟩

theorem Stops.of_stop {config : C} {result : R} (stopEq : step config = .stop result) :
    Stops step config result :=
  ⟨0, .of_stop stopEq⟩

/-- A result is passed back along a run. -/
theorem StopsIn.of_steps {m n : Nat} {config middle : C} {result : R}
    (run : Steps step m config middle) (stops : StopsIn step n middle result) :
    StopsIn step (m + n) config result := by
  rcases stops with ⟨last, rest, stopEq⟩
  exact ⟨last, run.trans rest, stopEq⟩

theorem Stops.of_steps {m : Nat} {config middle : C} {result : R}
    (run : Steps step m config middle) (stops : Stops step middle result) :
    Stops step config result := by
  rcases stops with ⟨n, stopsIn⟩
  exact ⟨m + n, .of_steps run stopsIn⟩

/-- Any run from a configuration is the beginning of its run to the result. -/
theorem StopsIn.after_steps {m n : Nat} {config middle : C} {result : R}
    (run : Steps step m config middle) (stops : StopsIn step n config result) :
    ∃ k, n = m + k ∧ StopsIn step k middle result := by
  induction run generalizing n with
  | refl config => exact ⟨n, (Nat.zero_add n).symm, stops⟩
  | @head m config between middle stepEq _ ih =>
      rcases stops with ⟨last, rest, stopEq⟩
      cases rest with
      | refl =>
          rw [stepEq] at stopEq
          contradiction
      | @head n _ other _ otherEq rest =>
          rw [stepEq] at otherEq
          cases otherEq
          rcases ih ⟨last, rest, stopEq⟩ with ⟨k, lengthEq, stopsIn⟩
          exact ⟨k, by omega, stopsIn⟩

/-- A configuration has at most one result. -/
theorem Stops.unique {config : C} {first second : R} (stopsFirst : Stops step config first)
    (stopsSecond : Stops step config second) : first = second := by
  rcases stopsFirst with ⟨m, last, run, stopEq⟩
  rcases stopsSecond with ⟨n, stopsIn⟩
  rcases stopsIn.after_steps run with ⟨k, _, other, rest, otherEq⟩
  cases rest with
  | refl =>
      rw [stopEq] at otherEq
      exact (Progress.stop.inj otherEq)
  | head stepEq _ =>
      rw [stopEq] at stepEq
      contradiction

/-! ## Simulation -/

/-- What one machine does at a configuration is matched by another machine: a stop
by a run to a stop that looks the same, and a step by a run of at least one step
to a configuration that is related again. -/
def Matched {D Q O : Type} (related : C → D → Prop) (other : D → Progress D Q)
    (observe : R → O) (observeOther : Q → O) (config : D) : Progress C R → Prop
  | .next next => ∃ n last, Steps other (n + 1) config last ∧ related next last
  | .stop result => ∃ answer, Stops other config answer ∧ observeOther answer = observe result

/-- If every step of a machine is matched, related configurations stop with
results that look the same, or both run for ever. -/
theorem stops_iff_of_matched {D Q O : Type} {other : D → Progress D Q} {related : C → D → Prop}
    {observe : R → O} {observeOther : Q → O}
    (simulates : ∀ config image, related config image →
      Matched related other observe observeOther image (step config))
    {config : C} {image : D} (start : related config image) (seen : O) :
    (∃ result, Stops step config result ∧ observe result = seen) ↔
      ∃ answer, Stops other image answer ∧ observeOther answer = seen := by
  constructor
  · rintro ⟨result, ⟨n, last, run, stopEq⟩, rfl⟩
    induction run generalizing image with
    | refl config =>
        have matched := simulates config image start
        rw [stopEq] at matched
        exact matched
    | @head n config middle last stepEq _ ih =>
        have matched := simulates config image start
        rw [stepEq] at matched
        rcases matched with ⟨k, imageLast, imageRun, relatedLast⟩
        rcases ih relatedLast stopEq with ⟨answer, stops, looks⟩
        exact ⟨answer, .of_steps imageRun stops, looks⟩
  · rintro ⟨answer, ⟨n, stopsIn⟩, rfl⟩
    -- The length of the run of the second machine decreases with every step of the first.
    induction n using Nat.strongRecOn generalizing config image with
    | ind n ih =>
        have matched := simulates config image start
        cases stepEq : step config with
        | stop result =>
            rw [stepEq] at matched
            rcases matched with ⟨found, stops, looks⟩
            have same := stops.unique ⟨n, stopsIn⟩
            exact ⟨result, .of_stop stepEq, by rw [← looks, same]⟩
        | next next =>
            rw [stepEq] at matched
            rcases matched with ⟨k, imageLast, imageRun, relatedLast⟩
            rcases stopsIn.after_steps imageRun with ⟨rest, lengthEq, stopsAfter⟩
            rcases ih rest (by omega) relatedLast stopsAfter with
              ⟨result, stops, looks⟩
            exact ⟨result, .of_steps (.single stepEq) stops, looks⟩

end ClassCompiler.Semantics
