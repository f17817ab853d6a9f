import ModelWeaver.Generator.Basic

/-!
# The commands of a document

The commands that can be called, and what the calls of the current document have
left behind: a live command for each name that was called, the state of each
submodel, and the number of calls, which makes the names of a call its own.
-/

namespace ModelWeaver

/-- A command that was called, with what is known of its calls. -/
structure LiveCommand where
  generator : Generator
  records : List Record := []
  /-- The calls of a command that was added to those of the library. -/
  seen : List Call := []

namespace LiveCommand

/-- What a command answers for solutions, if it is a submodel. -/
def answers? (command : LiveCommand) : Option Answers :=
  command.generator.answers? command.records command.seen

/-- Note a call. Commands of the library do not look back at calls. -/
def note (command : LiveCommand) (call : Call) : LiveCommand :=
  match command.generator with
  | .declaring _ | .submodel _ => command
  | .custom _ => { command with seen := command.seen ++ [call] }

/-- Keep what a call was recorded as. -/
def record (command : LiveCommand) (record : Option Record) : LiveCommand :=
  { command with records := command.records ++ record.toList }

end LiveCommand

/-- The commands and what the current document did with them. -/
structure Registry where
  commands : NameMap Generator
  live : NameMap LiveCommand := {}
  states : NameMap SubmodelState := {}
  /-- The submodels that were called, in the order of their first calls. -/
  used : List String := []
  /-- The number of calls so far. -/
  calls : Nat := 0

namespace Registry

/-- The registry of the commands that are always there. -/
def defaults : Registry where
  commands := .ofList Generator.defaults

/-- Add a command, in place of any other of the same name. -/
def register (registry : Registry) (name : String) (generator : Generator) : Registry :=
  { registry with commands := registry.commands.insert name generator }

/-- Forget all calls. -/
def reset (registry : Registry) : Registry where
  commands := registry.commands

/-- The start of the names that the next call makes up. -/
def nextStem (registry : Registry) (name : String) : String :=
  s!"_{Text.lower name}{registry.calls}_"

/-- Count a call. -/
def countCall (registry : Registry) : Registry :=
  { registry with calls := registry.calls + 1 }

/-- The live command of a name, which is made from the command on the first call. -/
def liveCommand (registry : Registry) (name : String) (generator : Generator) : LiveCommand :=
  (registry.live.get? name).getD { generator }

/-- Keep what a call has left behind. -/
def keep (registry : Registry) (name : String) (command : LiveCommand) : Registry :=
  { registry with live := registry.live.insert name command }

/-- Note that a submodel was called with success. -/
def noteSubmodel (registry : Registry) (name : String) : Registry :=
  if registry.states.contains name then registry
  else
    { registry with
      states := registry.states.insert name .constructed
      used := registry.used ++ [name] }

/-- Say that the document is complete. -/
def complete (registry : Registry) : Registry :=
  { registry with states := registry.states.mapValues fun _ => .queryable }

/-- The state of a submodel. -/
def state (registry : Registry) (name : String) : Except Failure SubmodelState :=
  match registry.states.get? name with
  | some state => .ok state
  | none =>
    if (registry.commands.get? name).any Generator.isSubmodel then .ok .unconstructed
    else .error (.unknownSubmodel name)

/-- What a submodel answers for solutions, once the document is complete. -/
def answers (registry : Registry) (name : String) : Except Failure Answers := do
  let state ← registry.state name
  if state ≠ .queryable then throw (.submodelNotReady name state)
  match (registry.live.get? name).bind LiveCommand.answers? with
  | some answers => return answers
  | none => throw (.unknownSubmodel name)

/-- What a solution says about each call of a submodel. -/
def extract (registry : Registry) (name : String) (solution : Solution) :
    Except Failure (List Decoded) :=
  return (← registry.answers name).extract solution

/-- The constraints of a submodel that a solution breaks. -/
def separate (registry : Registry) (name : String) (solution : Solution) :
    Except Failure (List Model.Constraint) :=
  return (← registry.answers name).separate solution

end Registry

/-! ## Sessions -/

/-- All that the constructs of a document read and change. -/
structure Session where
  context : Context := {}
  registry : Registry := .defaults
  /-- The lines that snippets printed, the last first. -/
  printed : List String := []

namespace Session

/-- Run an action on the context alone. -/
def onContext {α : Type} : Action Context α → Action Session α :=
  onPart context fun session context => { session with context }

/-- Call a command. The call counts and the command is live even if it fails. -/
def invoke (name : String) (index : Option String) (args : Arguments) :
    Action Session Unit := do
  let session ← get
  let registry := session.registry
  let some generator := registry.commands.get? name | throw (.unknownCommand name)
  let command := registry.liveCommand name generator
  let invocation := { index, arguments := args, stem := registry.nextStem name }
  let noted := command.note ⟨invocation, session.context⟩
  modify fun session => { session with registry := registry.countCall.keep name noted }
  let record ← onContext (command.generator.run command.seen invocation)
  let recorded := noted.record record
  modify fun session =>
    let registry := session.registry.keep name recorded
    { session with
      registry := if recorded.answers?.isSome then registry.noteSubmodel name else registry }

end Session

end ModelWeaver
