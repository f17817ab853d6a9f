import ModelWeaver.Proofs.Action
import ModelWeaver.Proofs.NameMap
import ModelWeaver.Registry

/-!
# Calls of commands, step by step

A call is taken up first: it counts, its command is live from then on, and it gets the
stem of its names. Then the command runs, which may fail, and what it leaves behind is
kept. `invoke_cases` lists all that a call can do to a session; what holds of the
registry after any number of calls is derived from it.
-/

namespace ModelWeaver

/-! ## The two parts of a call -/

namespace LiveCommand

variable (command : LiveCommand) (call : Call) (record : Option Record)

@[simp]
theorem note_generator : (command.note call).generator = command.generator := by
  rw [note]
  split <;> rfl

@[simp]
theorem note_records : (command.note call).records = command.records := by
  rw [note]
  split <;> rfl

@[simp]
theorem record_generator : (command.record record).generator = command.generator := rfl

@[simp]
theorem record_records : (command.record record).records = command.records ++ record.toList := rfl

end LiveCommand

namespace Registry

/-- The registry once a call of a live command was taken up. -/
def takenUp (registry : Registry) (name : String) (command : LiveCommand) : Registry :=
  registry.countCall.keep name command

/-- The registry once a call that was taken up has succeeded. -/
def carriedOut (registry : Registry) (name : String) (command : LiveCommand) : Registry :=
  let registry := registry.keep name command
  if command.answers?.isSome then registry.noteSubmodel name else registry

variable (registry : Registry) (name : String) (command : LiveCommand)

@[simp]
theorem takenUp_commands : (registry.takenUp name command).commands = registry.commands := rfl

@[simp]
theorem takenUp_calls : (registry.takenUp name command).calls = registry.calls + 1 := rfl

theorem get?_takenUp_live (other : String) :
    (registry.takenUp name command).live.get? other =
      if other = name then some command else registry.live.get? other :=
  NameMap.get?_insert registry.live name command other

@[simp]
theorem noteSubmodel_commands : (registry.noteSubmodel name).commands = registry.commands := by
  rw [noteSubmodel]
  split <;> rfl

@[simp]
theorem noteSubmodel_calls : (registry.noteSubmodel name).calls = registry.calls := by
  rw [noteSubmodel]
  split <;> rfl

@[simp]
theorem noteSubmodel_live : (registry.noteSubmodel name).live = registry.live := by
  rw [noteSubmodel]
  split <;> rfl

@[simp]
theorem carriedOut_commands :
    (registry.carriedOut name command).commands = registry.commands := by
  rw [carriedOut]
  split
  · exact noteSubmodel_commands _ _
  · rfl

@[simp]
theorem carriedOut_calls : (registry.carriedOut name command).calls = registry.calls := by
  rw [carriedOut]
  split
  · exact noteSubmodel_calls _ _
  · rfl

theorem get?_carriedOut_live (other : String) :
    (registry.carriedOut name command).live.get? other =
      if other = name then some command else registry.live.get? other := by
  have kept := NameMap.get?_insert registry.live name command other
  rw [carriedOut]
  split
  · rw [noteSubmodel_live]
    exact kept
  · exact kept

/-- A submodel without a state is noted when a call of it has succeeded. Otherwise no state
changes. -/
theorem carriedOut_cases :
    ((command.answers?.isSome = true → registry.states.contains name = true) ∧
      (registry.carriedOut name command).states = registry.states ∧
      (registry.carriedOut name command).used = registry.used) ∨
    (command.answers?.isSome = true ∧ registry.states.contains name = false ∧
      (registry.carriedOut name command).states = registry.states.insert name .constructed ∧
      (registry.carriedOut name command).used = registry.used ++ [name]) := by
  have states_eq : (registry.keep name command).states = registry.states := rfl
  by_cases submodel : command.answers?.isSome = true
  · rw [carriedOut, if_pos submodel, noteSubmodel, states_eq]
    cases noted : registry.states.contains name with
    | true => exact .inl ⟨fun _ => rfl, rfl, rfl⟩
    | false => exact .inr ⟨submodel, rfl, rfl, rfl⟩
  · rw [carriedOut, if_neg submodel]
    exact .inl ⟨fun isSubmodel => absurd isSubmodel submodel, rfl, rfl⟩

/-! ## Properties of all commands -/

/-- All commands are good, also those that are live. -/
structure AllCommands (Good : Generator → Prop) (registry : Registry) : Prop where
  commands {name : String} {generator : Generator} :
    registry.commands.get? name = some generator → Good generator
  live {name : String} {command : LiveCommand} :
    registry.live.get? name = some command → Good command.generator

namespace AllCommands

variable {Good : Generator → Prop} {registry : Registry} {name : String} {command : LiveCommand}

theorem liveCommand (all : registry.AllCommands Good) {generator : Generator}
    (known : registry.commands.get? name = some generator) :
    Good (registry.liveCommand name generator).generator := by
  rw [Registry.liveCommand]
  cases found : registry.live.get? name with
  | some command => exact all.live found
  | none => exact all.commands known

theorem takenUp (all : registry.AllCommands Good) (good : Good command.generator) :
    (registry.takenUp name command).AllCommands Good where
  commands := all.commands
  live {other held} found := by
    rw [get?_takenUp_live] at found
    split at found
    · cases found
      exact good
    · exact all.live found

theorem carriedOut (all : registry.AllCommands Good) (good : Good command.generator) :
    (registry.carriedOut name command).AllCommands Good where
  commands found := by
    rw [carriedOut_commands] at found
    exact all.commands found
  live {other held} found := by
    rw [get?_carriedOut_live] at found
    split at found
    · cases found
      exact good
    · exact all.live found

end AllCommands

end Registry

/-- Whether a command was added to those of the library. -/
def Generator.isCustom : Generator → Bool
  | custom _ => true
  | declaring _ | submodel _ => false

theorem LiveCommand.note_of_library {command : LiveCommand}
    (library : command.generator.isCustom = false) (call : Call) : command.note call = command := by
  rw [note]
  cases made : command.generator with
  | declaring _ | submodel _ => rfl
  | custom _ =>
    rw [made] at library
    cases library

/-- All commands are commands of the library, also those that are live. -/
def Registry.Standard (registry : Registry) : Prop :=
  registry.AllCommands fun generator => generator.isCustom = false

theorem Registry.standard_defaults : defaults.Standard where
  commands found := by
    have library : defaults.commands.entries.all (!·.2.isCustom) = true := by rfl
    simpa using List.all_eq_true.mp library _ (NameMap.mem_of_lookup_eq_some found)
  live found := by cases found

/-! ## Calls -/

namespace Session

variable {session : Session} {name : String}

theorem invoke_of_none (unknown : session.registry.commands.get? name = none)
    (index : Option String) (args : Arguments) :
    invoke name index args session = .error (.unknownCommand name) session := by
  simp only [invoke, get_bind, unknown]
  rfl

/-- The call that a session makes of a name. -/
def callOf (session : Session) (name : String) (index : Option String) (args : Arguments) :
    Call :=
  ⟨{ index, arguments := args, stem := session.registry.nextStem name }, session.context⟩

/-- A call is taken up. Then the command runs, and the call is carried out if it succeeds. -/
theorem invoke_of_some {generator : Generator}
    (known : session.registry.commands.get? name = some generator) (index : Option String)
    (args : Arguments) :
    let command := session.registry.liveCommand name generator
    let call := session.callOf name index args
    let registry := session.registry.takenUp name (command.note call)
    invoke name index args session =
      match command.generator.run command.seen call.invocation call.context with
      | .ok record context =>
        .ok () { session with
          context, registry := registry.carriedOut name ((command.note call).record record) }
      | .error failure context => .error failure { session with context, registry } := by
  intro command call registry
  simp only [invoke, get_bind, known, modify_bind]
  cases ran : command.generator.run command.seen call.invocation call.context with
  | ok record context =>
    have within : onContext (command.generator.run command.seen call.invocation)
        { session with registry } = .ok record { session with context, registry } :=
      onPart_of_eq_ok ran
    exact bind_of_eq_ok within _
  | error failure context =>
    have within : onContext (command.generator.run command.seen call.invocation)
        { session with registry } = .error failure { session with context, registry } :=
      onPart_of_eq_error ran
    exact bind_of_eq_error within _

/-- All that a call can do: it is refused and nothing happens, or it is taken up and fails
or succeeds. -/
theorem invoke_cases (session : Session) (name : String) (index : Option String)
    (args : Arguments) :
    (session.registry.commands.get? name = none ∧
      invoke name index args session = .error (.unknownCommand name) session) ∨
    ∃ generator command call,
      session.registry.commands.get? name = some generator ∧
      command = session.registry.liveCommand name generator ∧
      call = session.callOf name index args ∧
      ((∃ failure context,
          command.generator.run command.seen call.invocation call.context =
            .error failure context ∧
          invoke name index args session =
            .error failure { session with
              context, registry := session.registry.takenUp name (command.note call) }) ∨
        ∃ record context,
          command.generator.run command.seen call.invocation call.context = .ok record context ∧
          invoke name index args session =
            .ok () { session with
              context
              registry := (session.registry.takenUp name (command.note call)).carriedOut name
                ((command.note call).record record) }) := by
  cases known : session.registry.commands.get? name with
  | none => exact .inl ⟨rfl, invoke_of_none known index args⟩
  | some generator =>
    right
    refine ⟨generator, _, _, rfl, rfl, rfl, ?_⟩
    have invoked := invoke_of_some known index args
    simp only at invoked
    rw [invoked]
    split
    · next record context ran => exact .inr ⟨record, context, ran, rfl⟩
    · next failure context ran => exact .inl ⟨failure, context, ran, rfl⟩

/-- All that a call can leave behind, whether it succeeds or fails. -/
theorem stateAfter_invoke_cases (session : Session) (name : String) (index : Option String)
    (args : Arguments) :
    stateAfter (invoke name index args) session = session ∨
    ∃ generator command context noted,
      session.registry.commands.get? name = some generator ∧
      command = session.registry.liveCommand name generator ∧
      context = stateAfter (command.generator.run command.seen
        (session.callOf name index args).invocation) session.context ∧
      noted.generator = command.generator ∧
      (stateAfter (invoke name index args) session =
          { session with context, registry := session.registry.takenUp name noted } ∨
        ∃ record, stateAfter (invoke name index args) session =
          { session with
            context
            registry := (session.registry.takenUp name noted).carriedOut name
              (noted.record record) }) := by
  rcases invoke_cases session name index args with
    ⟨-, refused⟩ | ⟨generator, command, call, known, command_eq, rfl, taken⟩
  · left
    rw [stateAfter, refused]
  · right
    refine ⟨generator, command, _, command.note (session.callOf name index args), known,
      command_eq, rfl, command.note_generator _, ?_⟩
    rcases taken with ⟨failure, context, ran, result⟩ | ⟨record, context, ran, result⟩
    · left
      cases stateAfter_of_eq_error ran
      exact stateAfter_of_eq_error result
    · right
      cases stateAfter_of_eq_ok ran
      exact ⟨record, stateAfter_of_eq_ok result⟩

end Session

/-- Calls leave good commands good. -/
theorem Registry.AllCommands.invoke {Good : Generator → Prop} {session : Session}
    (all : session.registry.AllCommands Good) (name : String) (index : Option String)
    (args : Arguments) :
    (stateAfter (Session.invoke name index args) session).registry.AllCommands Good := by
  rcases Session.stateAfter_invoke_cases session name index args with
    same | ⟨generator, command, context, noted, known, rfl, -, noted_eq, taken⟩
  · rwa [same]
  · have good : Good noted.generator := noted_eq ▸ all.liveCommand known
    rcases taken with taken | ⟨record, carried⟩
    · rw [taken]
      exact all.takenUp good
    · rw [carried]
      exact (all.takenUp good).carriedOut good

end ModelWeaver
