import ModelWeaver.Failure

/-!
# Actions

Computations that change a state and may fail. What an action did before it failed
stays done.
-/

namespace ModelWeaver

/-- A computation on a state that may fail. -/
abbrev Action (σ : Type) := EStateM Failure σ

/-- A computation without a state is one that leaves the state alone. -/
instance {σ : Type} : MonadLift (Except Failure) (Action σ) where
  monadLift
    | .ok value => pure value
    | .error failure => throw failure

/-- Run an action on a part of a state. -/
def onPart {σ τ α : Type} (part : σ → τ) (replace : σ → τ → σ) (action : Action τ α) :
    Action σ α := fun state =>
  match action (part state) with
  | .ok value changed => .ok value (replace state changed)
  | .error failure changed => .error failure (replace state changed)

end ModelWeaver
