import ModelWeaver.Proofs.Registry.Calls

/-!
# The life of a submodel

What a registry holds after any number of steps: commands are added, calls are made with
or without success, the document is completed, all calls are forgotten. `Reached` says
which calls have succeeded since all were last forgotten, and `Consistent` how the parts
of a registry hang together with them.
-/

namespace ModelWeaver

/-! ## What commands leave behind -/

namespace Generator

/-- Calls do not make a command a submodel, nor do they make it cease to be one. All commands
of the library are like this; one that a program adds might decide otherwise at each call. -/
def Steady (generator : Generator) : Prop :=
  ∀ records seen, (generator.answers? records seen).isSome = generator.isSubmodel

theorem steady_of_isCustom {generator : Generator} (library : generator.isCustom = false) :
    generator.Steady := by
  cases generator with
  | declaring command | submodel command => exact fun _ _ => rfl
  | custom command => cases library

/-- What is kept of a call that succeeds. -/
def record? : Generator → Call → Option Record
  | submodel command, call =>
    match command.run call.invocation call.context with
    | .ok record _ => record
    | .error _ _ => none
  | declaring _, _ | custom _, _ => none

/-- What is known of a call that has succeeded. -/
theorem run_eq_ok {generator : Generator} {seen : List Call} {call : Call} {after : Context}
    {record : Option Record}
    (succeeds : generator.run seen call.invocation call.context = .ok record after) :
    record = generator.record? call ∧
      ∀ command, generator = submodel command →
        command.run call.invocation call.context = .ok record after := by
  cases generator with
  | declaring command | custom command =>
    obtain ⟨_, _, _, returned⟩ := exists_of_bind_eq_ok succeeds
    cases returned
    exact ⟨rfl, nofun⟩
  | submodel command =>
    have ran : command.run call.invocation call.context = .ok record after := succeeds
    refine ⟨by rw [record?, ran], ?_⟩
    rintro other ⟨⟩
    exact ran

end Generator

/-! ## Reachable registries -/

/-- A call that has succeeded, with the name of its command. -/
structure FinishedCall extends Call where
  name : String

def calledNames (calls : List FinishedCall) : List String := calls.map FinishedCall.name

def callsOf (name : String) (calls : List FinishedCall) : List FinishedCall :=
  calls.filter fun call => call.name = name

section

variable {calls : List FinishedCall} {name : String}

@[simp]
theorem calledNames_append (calls later : List FinishedCall) :
    calledNames (calls ++ later) = calledNames calls ++ calledNames later :=
  List.map_append

@[simp]
theorem calledNames_singleton (call : FinishedCall) : calledNames [call] = [call.name] := rfl

theorem name_mem_calledNames {call : FinishedCall} (mem : call ∈ calls) :
    call.name ∈ calledNames calls :=
  List.mem_map_of_mem mem

@[simp]
theorem callsOf_append (calls later : List FinishedCall) :
    callsOf name (calls ++ later) = callsOf name calls ++ callsOf name later :=
  List.filter_append ..

@[simp]
theorem callsOf_singleton (call : FinishedCall) :
    callsOf name [call] = if call.name = name then [call] else [] := by
  by_cases same : call.name = name <;> simp [callsOf, same]

theorem callsOf_eq_nil (new : name ∉ calledNames calls) : callsOf name calls = [] := by
  refine List.filter_eq_nil_iff.mpr ?_
  intro call mem same
  rw [← of_decide_eq_true same] at new
  exact new (name_mem_calledNames mem)

end

namespace Registry

/-- What calls make of a registry. The list holds those that succeed, in their order. The
rest of the session may change between two calls. -/
inductive Serves (registry : Registry) : List FinishedCall → Registry → Prop
  | nothing : Serves registry [] registry
  | succeeds {calls : List FinishedCall} {session after : Session} {name : String}
      {index : Option String} {arguments : Arguments} :
      Serves registry calls session.registry →
      Session.invoke name index arguments session = .ok () after →
      Serves registry
        (calls ++ [⟨session.callOf name index arguments, name⟩]) after.registry
  | fails {calls : List FinishedCall} {session after : Session} {name : String}
      {index : Option String} {arguments : Arguments} {failure : Failure} :
      Serves registry calls session.registry →
      Session.invoke name index arguments session = .error failure after →
      Serves registry calls after.registry

theorem Serves.trans {first second third : Registry} {calls later : List FinishedCall}
    (serves : Serves first calls second) (further : Serves second later third) :
    Serves first (calls ++ later) third := by
  induction further with
  | nothing => simpa using serves
  | succeeds _ result joined =>
    rw [← List.append_assoc]
    exact .succeeds joined result
  | fails _ result joined => exact .fails joined result

/-- The registries that can be reached with good commands, each with the calls that have
succeeded since all calls were last forgotten, in their order. -/
inductive Reached (Good : Generator → Prop) : List FinishedCall → Registry → Prop
  | start {commands : NameMap Generator} :
      (∀ name generator, commands.get? name = some generator → Good generator) →
        Reached Good [] { commands }
  | register {calls : List FinishedCall} {registry : Registry} (name : String)
      {generator : Generator} : Good generator →
        Reached Good calls registry → Reached Good calls (registry.register name generator)
  | reset {calls : List FinishedCall} {registry : Registry} :
      Reached Good calls registry → Reached Good [] registry.reset
  | complete {calls : List FinishedCall} {registry : Registry} :
      Reached Good calls registry → Reached Good calls registry.complete
  | serve {calls later : List FinishedCall} {registry after : Registry} :
      Reached Good calls registry → Serves registry later after →
        Reached Good (calls ++ later) after

/-- How the parts of a registry hang together with the calls that have succeeded. -/
structure Consistent (calls : List FinishedCall) (registry : Registry) : Prop where
  steady : registry.AllCommands Generator.Steady
  /-- The submodels in use are those with a state, in the order of their first calls. -/
  used_eq : registry.used =
    (calledNames calls).eraseDups.filter registry.states.contains
  /-- Only what was called has a state. -/
  called {name : String} : registry.states.contains name = true →
    name ∈ calledNames calls
  /-- What was called is live, and has a state if it is a submodel. -/
  live {name : String} : name ∈ calledNames calls →
    ∃ command, registry.live.get? name = some command ∧
      (command.generator.isSubmodel = true ↔ registry.states.contains name = true)
  /-- A live command has kept what its calls left behind, in their order. -/
  records_eq {name : String} {command : LiveCommand} :
    registry.live.get? name = some command →
      command.records = (callsOf name calls).filterMap fun call =>
        command.generator.record? call.toCall
  /-- Calls of submodels that have succeeded made their statements. -/
  runs {call : FinishedCall} {command : LiveCommand} {submodel : Submodel} : call ∈ calls →
    registry.live.get? call.name = some command → command.generator = .submodel submodel →
      ∃ after, submodel.run call.invocation call.context =
        .ok (command.generator.record? call.toCall) after

variable {calls : List FinishedCall} {registry : Registry} {name : String}

theorem liveCommand_of_some {command : LiveCommand} (live : registry.live.get? name = some command)
    (generator : Generator) : registry.liveCommand name generator = command := by
  rw [liveCommand, live, Option.getD_some]

theorem Consistent.records_liveCommand (consistent : Consistent calls registry) (name : String)
    (generator : Generator) :
    (registry.liveCommand name generator).records = (callsOf name calls).filterMap fun call =>
      (registry.liveCommand name generator).generator.record? call.toCall := by
  cases found : registry.live.get? name with
  | some command =>
    rw [liveCommand_of_some found]
    exact consistent.records_eq found
  | none =>
    have not_called : name ∉ calledNames calls := by
      intro called
      rcases consistent.live called with ⟨command, live, -⟩
      rw [found] at live
      cases live
    rw [callsOf_eq_nil not_called, liveCommand, found]
    rfl

theorem consistent_start {commands : NameMap Generator}
    (steady : ∀ name generator, commands.get? name = some generator → generator.Steady) :
    Consistent [] { commands } where
  steady := ⟨fun found => steady _ _ found, nofun⟩
  used_eq := rfl
  called state := by cases state
  live called := by cases called
  records_eq live := by cases live
  runs mem := by cases mem

theorem Consistent.complete (consistent : Consistent calls registry) :
    Consistent calls registry.complete where
  steady := ⟨consistent.steady.commands, consistent.steady.live⟩
  used_eq := by
    have contains_eq : registry.complete.states.contains = registry.states.contains := by
      funext other
      exact NameMap.contains_mapValues _ _ _
    rw [contains_eq]
    exact consistent.used_eq
  called state := by
    rw [Registry.complete, NameMap.contains_mapValues] at state
    exact consistent.called state
  live called := by
    rcases consistent.live called with ⟨command, live, submodel_iff⟩
    refine ⟨command, live, ?_⟩
    rwa [Registry.complete, NameMap.contains_mapValues]
  records_eq live := consistent.records_eq live
  runs := consistent.runs

/-- A call that is taken up makes a command live, which has no records if it is new. -/
theorem Consistent.takenUp (consistent : Consistent calls registry) {generator : Generator}
    (known : registry.commands.get? name = some generator) (call : Call) :
    Consistent calls
      (registry.takenUp name ((registry.liveCommand name generator).note call)) where
  steady := consistent.steady.takenUp (by
    rw [LiveCommand.note_generator]
    exact consistent.steady.liveCommand known)
  used_eq := consistent.used_eq
  called := consistent.called
  live {other} called := by
    rcases consistent.live called with ⟨command, live, submodel_iff⟩
    rw [get?_takenUp_live]
    split
    · next same =>
        subst same
        refine ⟨_, rfl, ?_⟩
        rwa [LiveCommand.note_generator, liveCommand_of_some live]
    · exact ⟨command, live, submodel_iff⟩
  records_eq {other command} live := by
    rw [get?_takenUp_live] at live
    split at live
    · next same =>
        cases live
        subst same
        rw [LiveCommand.note_records, LiveCommand.note_generator]
        exact consistent.records_liveCommand other generator
    · exact consistent.records_eq live
  runs {finished command submodel} mem live generator_eq := by
    rw [get?_takenUp_live] at live
    split at live
    · next same =>
        cases live
        rcases consistent.live (name_mem_calledNames mem) with ⟨held, held_live, -⟩
        rw [LiveCommand.note_generator, ← same, liveCommand_of_some held_live] at generator_eq ⊢
        exact consistent.runs mem held_live generator_eq
    · exact consistent.runs mem live generator_eq

theorem contains_carriedOut_states (registry : Registry) (name : String) (command : LiveCommand)
    (other : String) :
    (registry.carriedOut name command).states.contains other = true ↔
      registry.states.contains other = true ∨ other = name ∧ command.answers?.isSome = true := by
  rcases carriedOut_cases registry name command with
    ⟨old, states_eq, -⟩ | ⟨submodel, -, states_eq, -⟩
  · rw [states_eq]
    constructor
    · exact .inl
    · rintro (state | ⟨rfl, submodel⟩)
      · exact state
      · exact old submodel
  · rw [states_eq, NameMap.contains_insert]
    simp [submodel, or_comm]

section Success

variable {command : LiveCommand} {call : Call} {record : Option Record}
  (consistent : Consistent calls registry) (live : registry.live.get? name = some command)
include consistent live

theorem Consistent.isSome_answers? (record : Option Record) :
    (command.record record).answers?.isSome = command.generator.isSubmodel :=
  consistent.steady.live live _ _

theorem Consistent.state_iff (called : name ∈ calledNames calls) :
    command.generator.isSubmodel = true ↔ registry.states.contains name = true := by
  rcases consistent.live called with ⟨held, held_live, submodel_iff⟩
  rw [live] at held_live
  cases held_live
  exact submodel_iff

/-- The first success of a submodel puts it behind those in use, and any other success
leaves them. -/
theorem Consistent.used_carriedOut (record : Option Record) :
    (registry.carriedOut name (command.record record)).used =
      (calledNames calls ++ [name]).eraseDups.filter
        (registry.carriedOut name (command.record record)).states.contains := by
  rw [eraseDups_append_singleton]
  rcases carriedOut_cases registry name (command.record record) with
    ⟨-, states_eq, used_eq⟩ | ⟨submodel, no_state, -, used_eq⟩
  · rw [states_eq, used_eq, consistent.used_eq]
    split
    · rfl
    · next not_called =>
        have no_state : registry.states.contains name = false := by
          by_contra state
          exact not_called (consistent.called (Bool.of_not_eq_false state))
        simp [List.filter_append, no_state]
  · have not_called : name ∉ calledNames calls := by
      intro called
      rw [consistent.isSome_answers? live] at submodel
      rw [(consistent.state_iff live called).mp submodel] at no_state
      cases no_state
    rw [if_neg not_called, List.filter_append, used_eq, consistent.used_eq]
    congr 1
    · refine List.filter_congr ?_
      intro other mem
      have differs : other ≠ name := by
        rintro rfl
        exact not_called (List.mem_eraseDups.mp mem)
      rw [Bool.eq_iff_iff, contains_carriedOut_states]
      simp [differs]
    · rw [List.filter_singleton, (contains_carriedOut_states ..).mpr (.inr ⟨rfl, submodel⟩)]
      rfl

/-- A call that succeeds is noted, with what it leaves behind. -/
theorem Consistent.carriedOut (record_eq : record = command.generator.record? call)
    (runs : ∀ submodel, command.generator = .submodel submodel →
      ∃ after, submodel.run call.invocation call.context = .ok record after) :
    Consistent (calls ++ [⟨call, name⟩])
      (registry.carriedOut name (command.record record)) where
  steady := consistent.steady.carriedOut (by
    rw [LiveCommand.record_generator]
    exact consistent.steady.live live)
  used_eq := by
    rw [calledNames_append]
    exact consistent.used_carriedOut live record
  called {other} state := by
    rw [calledNames_append, List.mem_append]
    rcases (contains_carriedOut_states ..).mp state with state | ⟨rfl, -⟩
    · exact .inl (consistent.called state)
    · exact .inr (List.mem_singleton_self _)
  live {other} called := by
    simp only [get?_carriedOut_live, contains_carriedOut_states, consistent.isSome_answers? live]
    by_cases same : other = name
    · subst same
      refine ⟨_, if_pos rfl, ?_⟩
      rw [LiveCommand.record_generator]
      constructor
      · exact fun submodel => .inr ⟨rfl, submodel⟩
      · rintro (state | ⟨-, submodel⟩)
        · exact (consistent.state_iff live (consistent.called state)).mpr state
        · exact submodel
    · have before : other ∈ calledNames calls := by simpa [same] using called
      rcases consistent.live before with ⟨held, held_live, submodel_iff⟩
      refine ⟨held, by rw [if_neg same, held_live], ?_⟩
      simp [same, submodel_iff]
  records_eq {other held} held_live := by
    rw [get?_carriedOut_live] at held_live
    rw [callsOf_append, callsOf_singleton]
    split at held_live
    · next same =>
        cases held_live
        subst same
        rw [if_pos rfl, List.filterMap_append, LiveCommand.record_generator,
          ← consistent.records_eq live, record_eq]
        cases kept : command.generator.record? call <;> simp [kept]
    · next differs =>
        rw [if_neg (Ne.symm differs), List.append_nil]
        exact consistent.records_eq held_live
  runs {finished held submodel} mem held_live generator_eq := by
    rw [get?_carriedOut_live] at held_live
    rcases List.mem_append.mp mem with before | last
    · split at held_live
      · next same =>
          cases held_live
          rw [← same] at live
          rw [LiveCommand.record_generator] at generator_eq ⊢
          exact consistent.runs before live generator_eq
      · exact consistent.runs before held_live generator_eq
    · cases List.mem_singleton.mp last
      rw [if_pos rfl] at held_live
      cases held_live
      rcases runs submodel generator_eq with ⟨after, ran⟩
      exact ⟨after, by rw [ran, record_eq]; rfl⟩

end Success

theorem get?_takenUp_live_self (registry : Registry) (name : String) (command : LiveCommand) :
    (registry.takenUp name command).live.get? name = some command := by
  rw [get?_takenUp_live, if_pos rfl]

/-- What a call leaves of a registry, whether it succeeds or fails. -/
theorem Consistent.invoke {session after : Session} {index : Option String}
    {args : Arguments} (consistent : Consistent calls session.registry) :
    (Session.invoke name index args session = .ok () after →
      Consistent (calls ++ [⟨session.callOf name index args, name⟩]) after.registry) ∧
    ∀ failure, Session.invoke name index args session = .error failure after →
      Consistent calls after.registry := by
  rcases Session.invoke_cases session name index args with
    ⟨-, refused⟩ | ⟨generator, command, call, known, rfl, rfl, failed | succeeded⟩
  · rw [refused]
    constructor
    · nofun
    · rintro failure ⟨⟩
      exact consistent
  · rcases failed with ⟨failure, context, -, result⟩
    rw [result]
    constructor
    · nofun
    · rintro failure ⟨⟩
      exact consistent.takenUp known _
  · rcases succeeded with ⟨record, context, ran, result⟩
    rw [result]
    constructor
    · rintro ⟨⟩
      rcases Generator.run_eq_ok ran with ⟨record_eq, runs⟩
      apply (consistent.takenUp known _).carriedOut (get?_takenUp_live_self ..)
      · rwa [LiveCommand.note_generator]
      · intro submodel generator_eq
        rw [LiveCommand.note_generator] at generator_eq
        exact ⟨context, runs submodel generator_eq⟩
    · nofun

theorem Consistent.serves {later : List FinishedCall} {after : Registry}
    (consistent : Consistent calls registry) (serves : Serves registry later after) :
    Consistent (calls ++ later) after := by
  induction serves with
  | nothing => simpa using consistent
  | succeeds _ result served =>
    rw [← List.append_assoc]
    exact served.invoke.1 result
  | fails _ result served => exact served.invoke.2 _ result

/-- The parts of a registry hang together, whatever was done with it. -/
theorem Reached.consistent (reached : Reached Generator.Steady calls registry) :
    Consistent calls registry := by
  induction reached with
  | start steady => exact consistent_start steady
  | @register _ registry name generator steady _ consistent =>
    refine ⟨⟨?_, consistent.steady.live⟩, consistent.used_eq, consistent.called,
      consistent.live, consistent.records_eq, consistent.runs⟩
    intro other held found
    rw [Registry.register, NameMap.get?_insert] at found
    split at found
    · cases found
      exact steady
    · exact consistent.steady.commands found
  | reset reached consistent => exact consistent_start fun _ _ => consistent.steady.commands
  | complete reached consistent => exact consistent.complete
  | serve reached serves consistent => exact consistent.serves serves

/-! ## Submodels in use -/

theorem Consistent.nodup_used (consistent : Consistent calls registry) : registry.used.Nodup := by
  rw [consistent.used_eq]
  exact (nodup_eraseDups _).filter _

theorem Consistent.mem_used_iff (consistent : Consistent calls registry) :
    name ∈ registry.used ↔ registry.states.contains name = true := by
  rw [consistent.used_eq, List.mem_filter, List.mem_eraseDups]
  constructor
  · exact And.right
  · exact fun state => ⟨consistent.called state, state⟩

/-- The submodels in use are those with a call that has succeeded, and they are live. -/
theorem Consistent.mem_used_iff_called (consistent : Consistent calls registry) :
    name ∈ registry.used ↔
      name ∈ calledNames calls ∧
        ∃ command, registry.live.get? name = some command ∧
          command.generator.isSubmodel = true := by
  rw [consistent.mem_used_iff]
  constructor
  · intro state
    have called := consistent.called state
    rcases consistent.live called with ⟨command, live, submodel_iff⟩
    exact ⟨called, command, live, submodel_iff.mpr state⟩
  · rintro ⟨called, command, live, submodel⟩
    exact (consistent.state_iff live called).mp submodel

/-! ## Registries of one document -/

/-- Within a document no command is replaced, and no submodel can be asked yet. -/
structure InDocument (commands : NameMap Generator) (registry : Registry) : Prop where
  commands_eq : registry.commands = commands
  generator_eq {name : String} {command : LiveCommand} :
    registry.live.get? name = some command → commands.get? name = some command.generator
  constructed {name : String} {state : SubmodelState} :
    registry.states.get? name = some state → state = .constructed

section Document

variable {commands : NameMap Generator}

theorem inDocument_reset (registry : Registry) : InDocument registry.commands registry.reset where
  commands_eq := rfl
  generator_eq live := by cases live
  constructed state := by cases state

theorem InDocument.liveCommand (inDocument : InDocument commands registry)
    {generator : Generator} (known : registry.commands.get? name = some generator) :
    commands.get? name = some (registry.liveCommand name generator).generator := by
  rw [Registry.liveCommand]
  cases found : registry.live.get? name with
  | some command => exact inDocument.generator_eq found
  | none => rwa [← inDocument.commands_eq]

theorem InDocument.takenUp (inDocument : InDocument commands registry) {command : LiveCommand}
    (known : commands.get? name = some command.generator) :
    InDocument commands (registry.takenUp name command) where
  commands_eq := inDocument.commands_eq
  generator_eq {other held} live := by
    rw [get?_takenUp_live] at live
    split at live
    · next same =>
        cases live
        rw [same, known]
    · exact inDocument.generator_eq live
  constructed := inDocument.constructed

theorem InDocument.carriedOut (inDocument : InDocument commands registry)
    {command : LiveCommand} (known : commands.get? name = some command.generator) :
    InDocument commands (registry.carriedOut name command) where
  commands_eq := by rw [carriedOut_commands, inDocument.commands_eq]
  generator_eq {other held} live := by
    rw [get?_carriedOut_live] at live
    split at live
    · next same =>
        cases live
        rw [same, known]
    · exact inDocument.generator_eq live
  constructed {other state} found := by
    rcases carriedOut_cases registry name command with
      ⟨-, states_eq, -⟩ | ⟨-, -, states_eq, -⟩
    · rw [states_eq] at found
      exact inDocument.constructed found
    · rw [states_eq, NameMap.get?_insert] at found
      split at found
      · cases found
        rfl
      · exact inDocument.constructed found

theorem InDocument.invoke {session : Session} (inDocument : InDocument commands session.registry)
    (name : String) (index : Option String) (args : Arguments) :
    InDocument commands (stateAfter (Session.invoke name index args) session).registry := by
  rcases Session.stateAfter_invoke_cases session name index args with
    same | ⟨generator, command, context, noted, known, rfl, -, noted_eq, taken⟩
  · rwa [same]
  · have known := noted_eq ▸ inDocument.liveCommand known
    rcases taken with taken | ⟨record, carried⟩
    · rw [taken]
      exact inDocument.takenUp known
    · rw [carried]
      exact (inDocument.takenUp known).carriedOut known

theorem InDocument.serves {after : Registry} (inDocument : InDocument commands registry)
    (serves : Serves registry calls after) : InDocument commands after := by
  induction serves with
  | nothing => exact inDocument
  | @succeeds _ session _ name index args _ result served =>
    have kept := served.invoke name index args
    rwa [stateAfter, result] at kept
  | @fails _ session _ name index args _ _ result served =>
    have kept := served.invoke name index args
    rwa [stateAfter, result] at kept

end Document

end Registry

end ModelWeaver
