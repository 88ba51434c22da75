/-!
# Computations that keep their state when they fail

Lowering, emission and evaluation are all written with `EStateM`. The equations
here run such a computation on a state, and the inversion lemma takes a successful
sequence apart. An outcome says what holds at the end of a computation whether it
succeeds or fails. Two computations are twins if they end alike in related states, and
they agree up to a view of errors if they differ in their errors only, as far as the view
does not show.
-/

namespace ClassCompiler.Effects

variable {ε σ α β : Type}

theorem pure_apply (value : α) (state : σ) :
    (pure value : EStateM ε σ α) state = .ok value state := rfl

theorem throw_apply (error : ε) (state : σ) :
    (throw error : EStateM ε σ α) state = .error error state := rfl

theorem get_apply (state : σ) : (get : EStateM ε σ σ) state = .ok state state := rfl

theorem set_apply (next state : σ) :
    (set next : EStateM ε σ PUnit) state = .ok ⟨⟩ next := rfl

theorem modify_apply (change : σ → σ) (state : σ) :
    (modify change : EStateM ε σ PUnit) state = .ok ⟨⟩ (change state) := rfl

theorem bind_apply (first : EStateM ε σ α) (next : α → EStateM ε σ β) (state : σ) :
    (first >>= next) state =
      match first state with
      | .ok value after => next value after
      | .error error after => .error error after := by
  change EStateM.bind first next state = _
  rw [EStateM.bind]
  cases first state <;> rfl

theorem bind_of_ok {first : EStateM ε σ α} {next : α → EStateM ε σ β} {state after : σ}
    {value : α} (run : first state = .ok value after) :
    (first >>= next) state = next value after := by
  rw [bind_apply, run]

theorem bind_of_error {first : EStateM ε σ α} {next : α → EStateM ε σ β} {state after : σ}
    {error : ε} (run : first state = .error error after) :
    (first >>= next) state = .error error after := by
  rw [bind_apply, run]

/-- A sequence succeeds exactly if its parts do, one after the other. -/
theorem bind_eq_ok_iff {first : EStateM ε σ α} {next : α → EStateM ε σ β} {state last : σ}
    {result : β} :
    (first >>= next) state = .ok result last ↔
      ∃ value middle, first state = .ok value middle ∧ next value middle = .ok result last := by
  rw [bind_apply]
  cases run : first state with
  | ok value middle =>
      constructor
      · intro rest
        exact ⟨value, middle, rfl, rest⟩
      · rintro ⟨otherValue, otherMiddle, same, rest⟩
        cases same
        exact rest
  | error error middle =>
      constructor
      · intro failed
        cases failed
      · rintro ⟨_, _, same, _⟩
        cases same

/-- A computation that leaves a result has a run. -/
theorem exists_ok_of_isSome {action : EStateM ε σ α} {state : σ}
    (leaves : (action.run' state).isSome = true) :
    ∃ value after, action state = .ok value after := by
  delta EStateM.run' EStateM.run at leaves
  cases run : action state with
  | ok value after => exact ⟨value, after, rfl⟩
  | error error after =>
      rw [run] at leaves
      cases leaves

/-- Results one after the other are there exactly if each of them is. -/
theorem except_bind_eq_ok_iff {first : Except ε α} {next : α → Except ε β} {result : β} :
    (first >>= next) = .ok result ↔ ∃ value, first = .ok value ∧ next value = .ok result := by
  cases first with
  | ok value | error error => simp [bind, Except.bind]

/-- Results one after the other fail where the first of them fails that does. -/
theorem except_bind_eq_error_iff {first : Except ε α} {next : α → Except ε β} {error : ε} :
    (first >>= next) = .error error ↔
      first = .error error ∨ ∃ value, first = .ok value ∧ next value = .error error := by
  cases first with
  | ok value | error error => simp [bind, Except.bind]

/-! ## Outcomes -/

/-- A computation ends with a result and a state of one kind, or with an error and a
state of another kind. -/
def Outcome (action : EStateM ε σ α) (state : σ) (returns : α → σ → Prop)
    (fails : ε → σ → Prop) : Prop :=
  match action state with
  | .ok value after => returns value after
  | .error error after => fails error after

namespace Outcome

variable {action : EStateM ε σ α} {next : α → EStateM ε σ β} {state : σ}
  {returns : α → σ → Prop} {fails : ε → σ → Prop}

/-- A sequence ends as its second part does, unless the first part fails. -/
theorem bind {returns : β → σ → Prop}
    (first : Outcome action state (fun value middle => Outcome (next value) middle returns fails)
      fails) :
    Outcome (action >>= next) state returns fails := by
  unfold Outcome at first ⊢
  rw [bind_apply]
  cases run : action state with
  | ok value middle | error error middle =>
      rw [run] at first
      exact first

theorem mono (outcome : Outcome action state returns fails) {weakReturns : α → σ → Prop}
    {weakFails : ε → σ → Prop}
    (weaken : ∀ value after, returns value after → weakReturns value after)
    (weakenFails : ∀ error after, fails error after → weakFails error after) :
    Outcome action state weakReturns weakFails := by
  unfold Outcome at outcome ⊢
  cases run : action state with
  | ok value after =>
      rw [run] at outcome
      exact weaken value after outcome
  | error error after =>
      rw [run] at outcome
      exact weakenFails error after outcome

theorem of_ok (outcome : Outcome action state returns fails) {value : α} {after : σ}
    (run : action state = .ok value after) : returns value after := by
  unfold Outcome at outcome
  rw [run] at outcome
  exact outcome

theorem of_error (outcome : Outcome action state returns fails) {error : ε} {after : σ}
    (run : action state = .error error after) : fails error after := by
  unfold Outcome at outcome
  rw [run] at outcome
  exact outcome

end Outcome

/-! ## Two runs -/

/-- Two runs end alike: both with the same result or both with the same error. -/
inductive EndsAlike (related : σ → σ → Prop) :
    EStateM.Result ε σ α → EStateM.Result ε σ α → Prop where
  | ok (value : α) {source target : σ} (after : related source target) :
      EndsAlike related (.ok value source) (.ok value target)
  | error (error : ε) (source target : σ) :
      EndsAlike related (.error error source) (.error error target)

/-- Two computations that end alike whenever they start in related states. -/
def Twin (related : σ → σ → Prop) (first second : EStateM ε σ α) : Prop :=
  ∀ source target, related source target → EndsAlike related (first source) (second target)

section

variable {related : σ → σ → Prop} {first second : EStateM ε σ α} {next other : α → EStateM ε σ β}

/-- What follows ends alike if it does so from every pair of states that the first parts
reach. -/
theorem EndsAlike.bind {source target : σ}
    (ends : EndsAlike related (first source) (second target))
    (follows : ∀ value left right, first source = .ok value left → related left right →
      EndsAlike related (next value left) (other value right)) :
    EndsAlike related ((first >>= next) source) ((second >>= other) target) := by
  rw [bind_apply, bind_apply]
  generalize run : first source = firstRun at ends ⊢
  generalize second target = secondRun at ends ⊢
  cases ends with
  | ok value after => exact follows value _ _ run after
  | error error => exact .error error _ _

theorem Twin.pure (value : α) :
    Twin related (Pure.pure value : EStateM ε σ α) (Pure.pure value) :=
  fun _ _ before => .ok value before

theorem Twin.throw (error : ε) :
    Twin related (MonadExcept.throw error : EStateM ε σ α) (MonadExcept.throw error) :=
  fun source target _ => .error error source target

/-- Twins are put together step by step. -/
theorem Twin.bind (twin : Twin related first second)
    (follows : ∀ value, Twin related (next value) (other value)) :
    Twin related (first >>= next) (second >>= other) :=
  fun source target before => (twin source target before).bind fun value left right _ =>
    follows value left right

end

/-! ## The same but for errors -/

/-- Two runs end in the same state, both with the same result or both with errors that look
alike. -/
inductive EndsSame {δ : Type} (view : ε → δ) :
    EStateM.Result ε σ α → EStateM.Result ε σ α → Prop where
  | ok (value : α) (after : σ) : EndsSame view (.ok value after) (.ok value after)
  | error {first second : ε} (same : view first = view second) (after : σ) :
      EndsSame view (.error first after) (.error second after)

/-- Two computations that end in the same way from every state. -/
def Agree {δ : Type} (view : ε → δ) (first second : EStateM ε σ α) : Prop :=
  ∀ state, EndsSame view (first state) (second state)

section

variable {δ : Type} {view : ε → δ}

theorem Agree.of_eq {first second : EStateM ε σ α} (same : first = second) :
    Agree view first second := by
  subst same
  intro state
  cases first state with
  | ok value after => exact .ok value after
  | error error after => exact .error rfl after

theorem Agree.throw {first second : ε} (same : view first = view second) :
    Agree view (MonadExcept.throw first : EStateM ε σ α) (MonadExcept.throw second) :=
  fun state => .error same state

/-- Computations that agree are put together step by step. -/
theorem Agree.bind {first second : EStateM ε σ α} {next other : α → EStateM ε σ β}
    (agree : Agree view first second) (follows : ∀ value, Agree view (next value) (other value)) :
    Agree view (first >>= next) (second >>= other) := by
  intro state
  have ends := agree state
  rw [bind_apply, bind_apply]
  generalize first state = firstRun at ends ⊢
  generalize second state = secondRun at ends ⊢
  cases ends with
  | ok value after => exact follows value after
  | error same after => exact .error same after

/-- What follows a result follows alike if the results are the same but for errors. -/
theorem mapError_bind_congr {first second : Except ε α} (next : α → Except ε β)
    (same : first.mapError view = second.mapError view) :
    (first >>= next).mapError view = (second >>= next).mapError view := by
  cases first with
  | ok value =>
      cases second with
      | ok other =>
          cases same
          rfl
      | error error => cases same
  | error error =>
      cases second with
      | ok other => cases same
      | error other => exact congrArg Except.error (Except.error.inj same)

end

end ClassCompiler.Effects
