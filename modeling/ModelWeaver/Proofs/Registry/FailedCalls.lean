import Mathlib.Data.List.Basic
import ModelWeaver.Proofs.Generator.Writing
import ModelWeaver.Proofs.Registry.Calls

/-!
# Calls that fail

A command that fails may have written something before. Most commands of the library do
not: they compute all that they have to write, and write it when nothing can fail any
more. So a failed call of such a command only counts, and makes the command live.

`PARAM` and `VAR` are left out. They declare index sets on the way, and what comes after
that can still fail.
-/

namespace ModelWeaver

/-! ## Failing without a trace -/

section Actions

variable {σ ε α β : Type} {action : EStateM ε σ α} {next : α → EStateM ε σ β}

/-- Whenever an action fails, the state is the one in which it started. -/
def FailsCleanly (action : EStateM ε σ α) : Prop :=
  ∀ ⦃state failure after⦄, action state = .error failure after → after = state

def NeverFails (action : EStateM ε σ α) : Prop :=
  ∀ state failure after, action state ≠ .error failure after

theorem eq_error_of_outcome {state : σ} {failure : ε}
    (failed : outcome action state = .error failure) :
    action state = .error failure (stateAfter action state) := by
  rw [outcome] at failed
  rw [stateAfter]
  cases run : action state with
  | ok value final =>
    rw [run] at failed
    cases failed
  | error failure' final =>
    rw [run] at failed
    cases failed
    rfl

theorem exists_of_bind_eq_error {state final : σ} {failure : ε}
    (ran : (action >>= next) state = .error failure final) :
    action state = .error failure final ∨
      ∃ first middle, action state = .ok first middle ∧
        next first middle = .error failure final := by
  change EStateM.bind action next state = _ at ran
  rw [EStateM.bind] at ran
  cases run : action state with
  | ok first middle =>
    rw [run] at ran
    exact .inr ⟨first, middle, rfl, ran⟩
  | error failure' middle =>
    rw [run] at ran
    cases ran
    exact .inl rfl

theorem FailsCleanly.after_reading (reads : Moves Eq action)
    (clean : ∀ value, FailsCleanly (next value)) : FailsCleanly (action >>= next) := by
  intro state failure final ran
  have unmoved := reads state
  rw [stateAfter] at unmoved
  rcases exists_of_bind_eq_error ran with failed | ⟨first, middle, returned, failed⟩
  · rw [failed] at unmoved
    exact unmoved.symm
  · rw [returned] at unmoved
    exact (clean first failed).trans unmoved.symm

theorem FailsCleanly.before_success (clean : FailsCleanly action)
    (succeeds : ∀ value, NeverFails (next value)) : FailsCleanly (action >>= next) := by
  intro state failure final ran
  rcases exists_of_bind_eq_error ran with failed | ⟨first, middle, _, failed⟩
  · exact clean failed
  · exact absurd failed (succeeds first middle failure final)

theorem NeverFails.failsCleanly (succeeds : NeverFails action) : FailsCleanly action :=
  fun state failure final failed => absurd failed (succeeds state failure final)

theorem FailsCleanly.of_throw (failure : ε) :
    FailsCleanly (throw failure : EStateM ε σ α) := by
  rintro state cause final ⟨⟩
  rfl

theorem neverFails_pure (value : α) : NeverFails (pure value : EStateM ε σ α) := by
  intro state failure final failed
  cases failed

theorem neverFails_modify (change : σ → σ) : NeverFails (modify change : EStateM ε σ PUnit) := by
  intro start failure final failed
  cases failed

theorem chains_eq : Chains (Eq : σ → σ → Prop) where
  refl _ := rfl
  trans := Eq.trans

theorem FailsCleanly.after_lift {result : Except Failure α} {next : α → Action σ β}
    (clean : ∀ value, FailsCleanly (next value)) :
    FailsCleanly ((liftM result : Action σ α) >>= next) :=
  .after_reading (chains_eq.composes.lift result) clean

theorem FailsCleanly.onPart {τ : Type} {part : σ → τ} {replace : σ → τ → σ} {action : Action τ α}
    (clean : FailsCleanly action) (same : ∀ state, replace state (part state) = state) :
    FailsCleanly (onPart part replace action) := by
  intro state failure final ran
  rw [ModelWeaver.onPart] at ran
  cases inner : action (part state) with
  | ok value changed =>
    rw [inner] at ran
    cases ran
  | error cause changed =>
    rw [inner] at ran
    cases ran
    rw [clean inner, same]

end Actions

theorem WritesAtEnd.failsCleanly {α : Type} {action : Action Context α}
    (writes : WritesAtEnd action) : FailsCleanly action := by
  intro context failure final ran
  rcases writes.cases context with ⟨cause, failed⟩ | ⟨text, value, written⟩
  · cases failed.symm.trans ran
    rfl
  · cases written.symm.trans ran

/-! ## Commands that write last -/

/-- The commands of the library that write when nothing can fail any more. -/
def writingLast : List String :=
  ["SET", "CON", "STMT", "SOS1", "SOS2", "PWL", "ATSP_MTZ", "ATSP_SCF", "ATSP_MCF", "VBP_FLOW"]

namespace Model

theorem failsCleanly_register {α : Type} (symbol : SymbolName) (value : α) (same : α → α → Bool)
    (describe : α → String) : FailsCleanly (register symbol value same describe) := by
  refine .after_reading chains_eq.get fun table => ?_
  cases table.get? symbol.name with
  | none => exact (neverFails_modify _).failsCleanly.before_success fun _ => neverFails_pure _
  | some existing =>
    dsimp only
    split
    · exact .of_throw _
    · split
      · exact (neverFails_modify _).failsCleanly.before_success fun _ => neverFails_pure _
      · exact (neverFails_pure _).failsCleanly

theorem failsCleanly_declareSet (symbol : SymbolName) (members : List Value) :
    FailsCleanly (declareSet symbol members) := by
  have registers : FailsCleanly (SymbolTable.registerSet symbol members) :=
    (failsCleanly_register symbol members _ _).onPart fun _ => rfl
  exact .after_lift fun _ => registers.before_success fun _ => neverFails_pure _

end Model

namespace Declare

open Model

theorem failsCleanly_addSet (symbol : SymbolName) (members : List Value) :
    FailsCleanly (addSet symbol members) := by
  have declares : FailsCleanly (Context.onSymbols (declareSet symbol members)) :=
    (failsCleanly_declareSet symbol members).onPart fun _ => rfl
  exact declares.before_success fun _ => neverFails_modify _

theorem failsCleanly_runSet (invocation : Invocation) : FailsCleanly (runSet invocation) :=
  .after_lift fun _ => .after_lift fun symbol => .after_lift fun members =>
    failsCleanly_addSet symbol members

end Declare

namespace Generator

variable {command : String} {generator : Generator}

theorem failsCleanly_run_declaring (command : Declaring) {invocation : Invocation}
    (clean : FailsCleanly (command.run invocation)) (seen : List Call) :
    FailsCleanly (run (declaring command) seen invocation) :=
  clean.before_success fun _ => neverFails_pure none

variable (known : (command, generator) ∈ defaults) (listed : command ∈ writingLast)
include known listed

/-- The commands that write last are the submodels and three of the declaring commands. -/
theorem cases_of_writingLast :
    generator = declaring .set ∨ generator = declaring .con ∨ generator = declaring .stmt ∨
      ∃ submodel, generator = .submodel submodel := by
  simp only [defaults, List.mem_cons, Prod.mk.injEq, List.not_mem_nil, or_false] at known
  rcases known with ⟨rfl, rfl⟩ | ⟨rfl, rfl⟩ | ⟨rfl, rfl⟩ | ⟨rfl, rfl⟩ | ⟨rfl, rfl⟩ | ⟨rfl, rfl⟩ |
    ⟨rfl, rfl⟩ | ⟨rfl, rfl⟩ | ⟨rfl, rfl⟩ | ⟨rfl, rfl⟩ | ⟨rfl, rfl⟩ | ⟨rfl, rfl⟩
  all_goals simp [writingLast] at listed ⊢

theorem failsCleanly_run (seen : List Call) (invocation : Invocation) :
    FailsCleanly (generator.run seen invocation) := by
  rcases cases_of_writingLast known listed with rfl | rfl | rfl | ⟨submodel, rfl⟩
  · exact failsCleanly_run_declaring .set (Declare.failsCleanly_runSet invocation) seen
  · exact failsCleanly_run_declaring .con (Declare.writesAtEnd_runCon invocation).failsCleanly seen
  · exact failsCleanly_run_declaring .stmt (Declare.writesAtEnd_runStmt invocation).failsCleanly
      seen
  · exact (submodel.writesAtEnd_run invocation).failsCleanly

theorem isCustom_of_writingLast : generator.isCustom = false := by
  rcases cases_of_writingLast known listed with rfl | rfl | rfl | ⟨submodel, rfl⟩ <;> rfl

end Generator

/-! ## Calls -/

namespace Registry

/-- The command that answers the calls of a name: the live one, or else the registered
one. -/
def answering? (registry : Registry) (name : String) : Option Generator :=
  (registry.commands.get? name).map fun generator =>
    (registry.liveCommand name generator).generator

def callRecords (registry : Registry) (name : String) : List Record :=
  ((registry.live.get? name).map LiveCommand.records).getD []

/-- The calls of a name are answered by a command of the library that writes last, if at
all. -/
def WritesLast (registry : Registry) (name : String) : Prop :=
  ∀ generator ∈ registry.answering? name,
    ∃ command ∈ writingLast, (command, generator) ∈ Generator.defaults

variable {registry : Registry} {name : String} {generator : Generator}

theorem callRecords_liveCommand (generator : Generator) :
    (registry.liveCommand name generator).records = registry.callRecords name := by
  rw [liveCommand, callRecords]
  cases registry.live.get? name with
  | some command => rfl
  | none => rfl

theorem callRecords_takenUp (generator : Generator) (call : Call) (other : String) :
    (registry.takenUp name ((registry.liveCommand name generator).note call)).callRecords other =
      registry.callRecords other := by
  rw [callRecords, get?_takenUp_live]
  split
  · next same =>
      subst same
      exact (LiveCommand.note_records _ _).trans (callRecords_liveCommand generator)
  · rfl

/-- Taking a call up at most makes the command live. -/
theorem get?_takenUp_cases (generator : Generator) (other : String) :
    (registry.takenUp name (registry.liveCommand name generator)).live.get? other =
        registry.live.get? other ∨
      other = name ∧ registry.live.get? name = none ∧
        (registry.takenUp name (registry.liveCommand name generator)).live.get? name =
          some { generator } := by
  simp only [get?_takenUp_live, if_true]
  by_cases same : other = name
  · subst same
    rw [if_pos rfl, liveCommand]
    cases registry.live.get? other with
    | some command => exact .inl rfl
    | none => exact .inr ⟨rfl, rfl, rfl⟩
  · rw [if_neg same]
    exact .inl rfl

end Registry

namespace Session

/-- What a call of a name has left as it was, and the little that it may have changed. -/
structure OnlyCounted (name : String) (before after : Session) : Prop where
  /-- The variables, the declared symbols and the buffers. -/
  context : after.context = before.context
  printed : after.printed = before.printed
  commands : after.registry.commands = before.registry.commands
  states : after.registry.states = before.registry.states
  submodels : after.registry.used = before.registry.used
  records : ∀ other, after.registry.callRecords other = before.registry.callRecords other
  live : ∀ other, after.registry.live.get? other = before.registry.live.get? other ∨
    other = name ∧ before.registry.live.get? name = none ∧
      ∃ generator, after.registry.live.get? name = some { generator }
  calls : after.registry.calls =
    before.registry.calls + if before.registry.commands.contains name then 1 else 0

/-- A failed call of a command that writes last leaves no trace, except that it counts and
that its command is live. -/
theorem failed_calls_leave_no_trace (session : Session) {name : String}
    (last : session.registry.WritesLast name) (index : Option String) (arguments : Arguments)
    {failure : Failure} {after : Session}
    (failed : invoke name index arguments session = .error failure after) :
    OnlyCounted name session after := by
  rcases invoke_cases session name index arguments with
    ⟨unknown, ran⟩ | ⟨generator, command, call, known, commandEq, callEq, ran⟩
  · cases ran.symm.trans failed
    refine ⟨rfl, rfl, rfl, rfl, rfl, fun _ => rfl, fun _ => .inl rfl, ?_⟩
    rw [NameMap.contains, unknown]
    rfl
  · have answers : command.generator ∈ session.registry.answering? name := by
      rw [Registry.answering?, known, commandEq]
      rfl
    obtain ⟨libraryName, listed, isDefault⟩ := last _ answers
    rcases ran with ⟨failure', context, runs, ran⟩ | ⟨record, context, _, ran⟩
    · cases ran.symm.trans failed
      have clean : context = session.context :=
        (Generator.failsCleanly_run isDefault listed _ _ runs).trans (by rw [callEq]; rfl)
      have library := Generator.isCustom_of_writingLast isDefault listed
      subst commandEq
      refine ⟨clean, rfl, rfl, rfl, rfl, Registry.callRecords_takenUp generator call, ?_, ?_⟩
      · intro other
        rw [LiveCommand.note_of_library library]
        rcases Registry.get?_takenUp_cases generator other with same | ⟨isName, fresh, made⟩
        · exact .inl same
        · exact .inr ⟨isName, fresh, generator, made⟩
      · rw [NameMap.contains, known]
        rfl
    · cases ran.symm.trans failed

/-- A session in which one bin packing problem was written. -/
def packedOnce : Session :=
  stateAfter (invoke "VBP_FLOW" (some "Z") ⟨[.int 5, .list [.int 3], .list [.int 2]], []⟩) {}

/-- A problem whose second item fits into no bin, which is found out when the flows are
known. -/
def oversized : Arguments := ⟨[.int 5, .list [.int 3, .int 7], .list [.int 1, .int 1]], []⟩

theorem failed_calls_leave_no_trace_oversized :
    packedOnce.registry.used = ["VBP_FLOW"] ∧
    (packedOnce.registry.callRecords "VBP_FLOW").length = 1 ∧
    outcome (invoke "VBP_FLOW" (some "Y") oversized) packedOnce =
      .error (.badArgument (.flowTooLarge 2)) ∧
    OnlyCounted "VBP_FLOW" packedOnce
      (stateAfter (invoke "VBP_FLOW" (some "Y") oversized) packedOnce) := by
  have answers : packedOnce.registry.answering? "VBP_FLOW" = some (.submodel .binPacking) := by
    with_unfolding_all rfl
  have last : packedOnce.registry.WritesLast "VBP_FLOW" := by
    intro generator mem
    cases answers.symm.trans mem
    exact ⟨"VBP_FLOW", by decide, by simp [Generator.defaults]⟩
  have failed : outcome (invoke "VBP_FLOW" (some "Y") oversized) packedOnce =
      .error (.badArgument (.flowTooLarge 2)) := by decide +kernel
  exact ⟨by decide +kernel, by decide +kernel, failed,
    failed_calls_leave_no_trace packedOnce last _ _ (eq_error_of_outcome failed)⟩

end Session

end ModelWeaver
