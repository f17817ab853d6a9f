import ModelWeaver.Generator.Basic
import ModelWeaver.Proofs.Guarantee

/-!
# Commands that write last

A submodel computes all that it has to say, which may fail, and then adds one text to the model
buffer, which cannot. So do `CON` and `STMT`. What such a command does to a context is known
without looking into what it computes.
-/

namespace ModelWeaver

open Model

variable {α β : Type}

/-- An action computes a text and a value without a look at the context, and then adds the text to
the model buffer. -/
def WritesAtEnd (action : Action Context α) : Prop :=
  ∃ result : Except Failure (String × α), action = do
    let (text, value) ← result
    modify (·.emit .model text)
    return value

namespace WritesAtEnd

variable {action : Action Context α}

theorem write (text : String) (value : α) :
    WritesAtEnd (do modify (·.emit .model text); return value) :=
  ⟨.ok (text, value), rfl⟩

theorem throw (failure : Failure) : WritesAtEnd (MonadExcept.throw failure : Action Context α) :=
  ⟨.error failure, rfl⟩

theorem after_throw (failure : Failure) (next : β → Action Context α) :
    WritesAtEnd (MonadExcept.throw failure >>= next) :=
  throw failure

theorem after_lift {result : Except Failure β} {next : β → Action Context α}
    (writes : ∀ value, WritesAtEnd (next value)) :
    WritesAtEnd ((liftM result : Action Context β) >>= next) := by
  cases result with
  | ok value => exact writes value
  | error failure => exact throw failure

theorem map (writes : WritesAtEnd action) (change : α → β) :
    WritesAtEnd (do return change (← action)) := by
  rcases writes with ⟨result, rfl⟩
  cases result with
  | ok written => exact ⟨.ok (written.1, change written.2), rfl⟩
  | error failure => exact ⟨.error failure, rfl⟩

/-- All that can happen: nothing is written, or the text is, after which nothing fails. -/
theorem cases (writes : WritesAtEnd action) (context : Context) :
    (∃ failure, action context = .error failure context) ∨
      ∃ text value, action context = .ok value (context.emit .model text) := by
  rcases writes with ⟨result, rfl⟩
  cases result with
  | ok written => exact .inr ⟨written.1, written.2, rfl⟩
  | error failure => exact .inl ⟨failure, rfl⟩

theorem keeps (writes : WritesAtEnd action) {Sound : Context → Prop}
    (sound : ∀ context text, Sound context → Sound (context.emit .model text)) :
    Keeps Sound (fun _ => True) action := by
  intro context isSound
  refine ⟨?_, Yields.anything _⟩
  rw [stateAfter]
  rcases writes.cases context with ⟨failure, ran⟩ | ⟨text, value, ran⟩
  · rw [ran]
    exact isSound
  · rw [ran]
    exact sound context text isSound

end WritesAtEnd

/-! ## Submodels -/

theorem OrderedSet.writesAtEnd_run (kind : Kind) (invocation : Invocation) :
    WritesAtEnd (run kind invocation) :=
  .after_lift fun _ => .after_lift fun _ => .after_lift fun _ => .write _ ()

theorem Polyline.writesAtEnd_run (invocation : Invocation) : WritesAtEnd (run invocation) := by
  refine .after_lift fun index => .after_lift fun names => ?_
  split
  · refine .after_lift fun points => ?_
    split
    · exact .after_throw _ _
    · exact .after_lift fun program => .write _ ()
  · exact .throw _

theorem Tour.writesAtEnd_run (formulation : Formulation) (invocation : Invocation) :
    WritesAtEnd (run formulation invocation) :=
  .after_lift fun _ => .after_lift fun _ => .after_lift fun _ => .after_lift fun _ => .write _ _

theorem BinPacking.writesAtEnd_run (invocation : Invocation) : WritesAtEnd (run invocation) := by
  refine .after_lift fun index => .after_lift fun names => ?_
  split
  · exact .after_lift fun problem => .after_lift fun _ => .after_lift fun items =>
      .after_lift fun graph => .after_lift fun program => .write _ _
  · exact .throw _

theorem Submodel.writesAtEnd_run (submodel : Submodel) (invocation : Invocation) :
    WritesAtEnd (submodel.run invocation) := by
  cases submodel with
  | orderedSet kind => exact (OrderedSet.writesAtEnd_run kind invocation).map fun _ => none
  | polyline => exact (Polyline.writesAtEnd_run invocation).map fun _ => none
  | tour formulation =>
    exact (Tour.writesAtEnd_run formulation invocation).map (some ∘ Record.tour)
  | binPacking => exact (BinPacking.writesAtEnd_run invocation).map (some ∘ Record.run)

/-! ## Declaring commands -/

theorem Declare.writesAtEnd_runCon (invocation : Invocation) : WritesAtEnd (runCon invocation) :=
  .after_lift fun _ => .after_lift fun _ => .after_lift fun text => .write text ()

theorem Declare.writesAtEnd_runStmt (invocation : Invocation) : WritesAtEnd (runStmt invocation) :=
  .after_lift fun _ => .after_lift fun text => .write text ()

end ModelWeaver
