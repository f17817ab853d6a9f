import ModelWeaver.Context

/-!
# Properties of actions

An action changes a state and may fail. `Composes` asks of a property of actions that it can be
carried over from the steps to the whole, and the lemmas after it do so for the usual ways in which
steps are put together.

`Moves` relates the states before and after an action. `Commutes` says that an action has the same
result in a state that was changed beforehand.
-/

namespace ModelWeaver

variable {σ ε α β : Type} {action : EStateM ε σ α} {state : σ}

/-! ## Results -/

/-- What an action returns, or how it fails. -/
def outcome (action : EStateM ε σ α) (state : σ) : Except ε α :=
  match action state with
  | .ok value _ => .ok value
  | .error failure _ => .error failure

/-- The state after an action, also after one that fails. -/
def stateAfter (action : EStateM ε σ α) (state : σ) : σ :=
  match action state with
  | .ok _ state => state
  | .error _ state => state

theorem stateAfter_of_eq_ok {value : α} {after : σ} (ran : action state = .ok value after) :
    stateAfter action state = after := by
  rw [stateAfter, ran]

theorem stateAfter_of_eq_error {failure : ε} {after : σ}
    (ran : action state = .error failure after) : stateAfter action state = after := by
  rw [stateAfter, ran]

theorem eq_ok_of_outcome {value : α} (returned : outcome action state = .ok value) :
    action state = .ok value (stateAfter action state) := by
  rw [outcome] at returned
  rw [stateAfter]
  cases run : action state with
  | ok value' after =>
    rw [run] at returned
    cases returned
    rfl
  | error failure after =>
    rw [run] at returned
    cases returned

theorem get_bind (next : σ → EStateM ε σ α) (state : σ) :
    (get >>= next : EStateM ε σ α) state = next state state := rfl

theorem modify_bind (change : σ → σ) (next : PUnit → EStateM ε σ α) (state : σ) :
    (modify change >>= next : EStateM ε σ α) state = next ⟨⟩ (change state) := rfl

theorem bind_of_eq_ok {middle : σ} {value : α} (ran : action state = .ok value middle)
    (next : α → EStateM ε σ β) : (action >>= next) state = next value middle := by
  change EStateM.bind action next state = _
  rw [EStateM.bind, ran]

theorem bind_of_eq_error {middle : σ} {failure : ε} (ran : action state = .error failure middle)
    (next : α → EStateM ε σ β) : (action >>= next) state = .error failure middle := by
  change EStateM.bind action next state = _
  rw [EStateM.bind, ran]

theorem exists_of_bind_eq_ok {next : α → EStateM ε σ β} {final : σ} {value : β}
    (ran : (action >>= next) state = .ok value final) :
    ∃ first middle, action state = .ok first middle ∧ next first middle = .ok value final := by
  change EStateM.bind action next state = _ at ran
  rw [EStateM.bind] at ran
  cases run : action state with
  | ok first middle =>
    rw [run] at ran
    exact ⟨first, middle, rfl, ran⟩
  | error failure middle =>
    rw [run] at ran
    cases ran

/-- An action that returns a value has passed through a state after its first step. -/
theorem exists_of_outcome_bind {next : α → EStateM ε σ β} {value : β}
    (returned : outcome (action >>= next) state = .ok value) :
    ∃ first middle, action state = .ok first middle ∧ outcome (next first) middle = .ok value := by
  obtain ⟨first, middle, ran, last⟩ := exists_of_bind_eq_ok (eq_ok_of_outcome returned)
  exact ⟨first, middle, ran, by rw [outcome, last]⟩

theorem exists_of_lift_bind_eq_ok {result : Except Failure α} {next : α → Action σ β} {final : σ}
    {value : β} (ran : ((liftM result : Action σ α) >>= next) state = .ok value final) :
    ∃ first, result = .ok first ∧ next first state = .ok value final := by
  cases result with
  | ok first => exact ⟨first, rfl, ran⟩
  | error failure => cases ran

theorem lift_ok_bind (value : α) (next : α → Action σ β) :
    ((liftM (.ok value : Except Failure α) : Action σ α) >>= next) = next value := rfl

section OnPart

variable {τ : Type} {part : σ → τ} {replace : σ → τ → σ} {action : Action τ α} {after : τ}

theorem onPart_of_eq_ok {value : α} (ran : action (part state) = .ok value after) :
    onPart part replace action state = .ok value (replace state after) := by
  rw [onPart, ran]

theorem onPart_of_eq_error {failure : Failure} (ran : action (part state) = .error failure after) :
    onPart part replace action state = .error failure (replace state after) := by
  rw [onPart, ran]

theorem stateAfter_onPart (action : Action τ α) (state : σ) :
    stateAfter (onPart part replace action) state =
      replace state (stateAfter action (part state)) := by
  rw [stateAfter, stateAfter, onPart]
  cases action (part state) with
  | ok value final => rfl
  | error failure final => rfl

theorem exists_of_onPart_eq_ok {value : α} {final : σ}
    (ran : onPart part replace action state = .ok value final) :
    ∃ after, action (part state) = .ok value after ∧ final = replace state after := by
  rw [onPart] at ran
  cases inner : action (part state) with
  | ok value' after =>
    rw [inner] at ran
    cases ran
    exact ⟨after, rfl, rfl⟩
  | error failure after =>
    rw [inner] at ran
    cases ran

end OnPart

/-- A result with another state. -/
def overState (change : σ → σ) : EStateM.Result ε σ α → EStateM.Result ε σ α
  | .ok value state => .ok value (change state)
  | .error failure state => .error failure (change state)

section OverState

variable {action other : EStateM ε σ α} {change : σ → σ} {state start : σ}

theorem outcome_of_overState (same : action state = overState change (other start)) :
    outcome action state = outcome other start := by
  simp only [outcome, same]
  cases other start with
  | ok value final => rfl
  | error failure final => rfl

theorem stateAfter_of_overState (same : action state = overState change (other start)) :
    stateAfter action state = change (stateAfter other start) := by
  simp only [stateAfter, same]
  cases other start with
  | ok value final => rfl
  | error failure final => rfl

end OverState

/-! ## Properties that follow the steps -/

/-- A property of actions, whatever they return and however they fail. -/
abbrev ActionProperty (σ : Type) := ∀ ⦃ε α : Type⦄, EStateM ε σ α → Prop

/-- A property that an action has if its steps have it. -/
structure Composes (Holds : ActionProperty σ) : Prop where
  pure {ε α : Type} (value : α) : Holds (Pure.pure value : EStateM ε σ α)
  throw {ε α : Type} (failure : ε) : Holds (MonadExcept.throw failure : EStateM ε σ α)
  /-- The second step starts where the first has ended, with what the first has returned. -/
  bind_returned {ε α β : Type} {action : EStateM ε σ α} {next : α → EStateM ε σ β} :
    Holds action →
      (∀ value start middle, action start = .ok value middle → Holds (next value)) →
        Holds (action >>= next)
  /-- It does not matter how failures are put. -/
  adaptExcept {ε ε' α : Type} (change : ε → ε') {action : EStateM ε σ α} :
    Holds action → Holds (action.adaptExcept change)

namespace Composes

variable {Holds : ActionProperty σ} (composes : Composes Holds)
include composes

theorem bind {action : EStateM ε σ α} {next : α → EStateM ε σ β} (first : Holds action)
    (second : ∀ value, Holds (next value)) : Holds (action >>= next) :=
  composes.bind_returned first fun value _ _ _ => second value

theorem throw_bind (failure : ε) (next : α → EStateM ε σ β) :
    Holds (MonadExcept.throw failure >>= next) :=
  composes.throw failure

theorem lift (result : Except Failure α) : Holds (liftM result : Action σ α) := by
  cases result with
  | ok value => exact composes.pure value
  | error failure => exact composes.throw failure

end Composes

/-! ## States before and after -/

/-- Every run of an action, with or without success, leads to a related state. -/
def Moves (relation : σ → σ → Prop) ⦃ε α : Type⦄ (action : EStateM ε σ α) : Prop :=
  ∀ state, relation state (stateAfter action state)

/-- A relation that holds across any number of steps if it holds across each. -/
structure Chains (relation : σ → σ → Prop) : Prop where
  refl (state : σ) : relation state state
  trans {first second third : σ} :
    relation first second → relation second third → relation first third

namespace Chains

variable {relation : σ → σ → Prop} (chains : Chains relation)
include chains

theorem get : Moves relation (get : EStateM ε σ σ) :=
  chains.refl

theorem composes : Composes (Moves relation) where
  pure _ := chains.refl
  throw _ := chains.refl
  bind_returned := by
    intro ε α β action next first second state
    have start := first state
    simp only [stateAfter, Bind.bind, EStateM.bind] at start ⊢
    cases result : action state with
    | ok value middle =>
      rw [result] at start
      exact chains.trans start (second value state middle result middle)
    | error failure final =>
      rw [result] at start
      exact start
  adaptExcept := by
    intro ε ε' α change action moves state
    have related := moves state
    simp only [stateAfter, EStateM.adaptExcept] at related ⊢
    cases result : action state with
    | ok value final | error failure final =>
      rw [result] at related
      exact related

end Chains

/-! ## States that were changed beforehand -/

/-- An action has the same result in a changed state, and the change is still there
afterwards. -/
def Commutes (change : σ → σ) ⦃ε α : Type⦄ (action : EStateM ε σ α) : Prop :=
  ∀ state, action (change state) = overState change (action state)

theorem composes_commutes (change : σ → σ) : Composes (Commutes change) where
  pure _ _ := rfl
  throw _ _ := rfl
  bind_returned := by
    intro ε α β action next first second state
    simp only [Bind.bind, EStateM.bind, first state]
    cases result : action state with
    | ok value middle => exact second value state middle result middle
    | error failure final => rfl
  adaptExcept := by
    intro ε ε' α adapt action commutes state
    simp only [EStateM.adaptExcept, commutes state]
    cases action state with
    | ok value final => rfl
    | error failure final => rfl

end ModelWeaver
