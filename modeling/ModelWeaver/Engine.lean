import ModelWeaver.Document.Assembly
import ModelWeaver.Document.Fault
import ModelWeaver.Document.Scan
import ModelWeaver.Snippet.Evaluate
import ModelWeaver.Snippet.Parser

/-!
# Expanding documents

An engine expands documents: every construct is replaced by what it produces, and
all other text is copied. After a document the engine answers questions about
solutions of the model, until the next document.
-/

namespace ModelWeaver

open Text
open Document
open Snippet

/-- The name of the command whose body is a list of statements. -/
def execName : String := "EXEC"

/-! ## Constructs -/

namespace Session

/-- A syntax error as a failure of the construct that holds the text. -/
def orUnreadable {α : Type} : Except SyntaxError α → Action Session α
  | .ok value => pure value
  | .error error => throw (.malformed (.unreadable error.cause))

/-- Empty the buffers. -/
def clearBuffers : Action Session Unit :=
  modify fun session => { session with context := { session.context with buffers := {} } }

/-- Take what is in the buffers and empty them. -/
def takeFragment : Action Session Fragment := do
  let fragment := (← get).context.buffers
  clearBuffers
  return fragment

/-- Evaluate an inline expression. Its text replaces what is in the model
buffer. -/
def inline (expression : Excerpt) : Action Session Fragment := do
  let expr ← orUnreadable (parseExpression expression.start expression.text)
  let value ← evaluate expr
  return { ← takeFragment with model := value.text }

/-- Run a command of a document. -/
def command (name : String) (index : Option String) (body : Excerpt) : Action Session Unit := do
  if name = execName then
    if index.isSome then throw (.malformed (.indexForbidden execName))
    execute (← orUnreadable (parseStatements body.start body.text))
  else
    if !(← get).registry.commands.contains name then throw (.unknownCommand name)
    let args ← orUnreadable (parseArguments body.start body.text)
    invoke name index (← evaluateArguments args)

/-- Evaluate a construct with empty buffers, and give what it produces. Other regions
produce nothing. -/
def dispatch (region : Region) : Action Session Fragment := do
  clearBuffers
  match region.kind with
  | .inline expression => inline expression
  | .command name index body =>
    command name (index.map Excerpt.text) body
    takeFragment
  | .literal | .quoted | .comment => takeFragment

end Session

/-! ## Documents -/

/-- A failure of a construct as a fault of its document. -/
def located {α : Type} (source : String) (construct : Region) (action : Action Session α) :
    EStateM Fault Session α := fun session =>
  match action session with
  | .ok value session => .ok value session
  | .error failure session =>
    .error (.ofFailure construct (Location.ofOffset source construct.span.start) failure) session

/-- Whether a comment is one between `/*` and `*/`. -/
def isBlockComment (text : String) : Bool := (dropStart? "/*".toList text.toList).isSome

/-- Expand a region and add it to the output. -/
def expandRegion (source : String) (assembly : Assembly) (region : Region) :
    EStateM Fault Session Assembly := do
  match region.kind with
  | .literal => return assembly.code region.text
  | .quoted => return assembly.literal region.text
  | .comment =>
    return if isBlockComment region.text then assembly.blockComment region.text
      else assembly.literal region.text
  | .inline _ | .command _ _ _ =>
    return assembly.fragment region.text (← located source region (Session.dispatch region))

/-- Expand the regions of a document. -/
def expandRegions (source : String) (layout : Layout) (regions : List Region) :
    EStateM Fault Session String := do
  let assembly ← regions.foldlM (expandRegion source) { layout }
  return assembly.finish

/-! ## Engines -/

/-- Commands, variables that every document starts with, and what the last document
left behind. -/
structure Engine where
  registry : Registry := .defaults
  bindings : NameMap Value := {}
  input : String := ""
  /-- The output of the last text that was read and expanded. -/
  output : String := ""
  /-- The lines that snippets printed, the last first. -/
  printed : List String := []

namespace Engine

/-- Add a command, in place of any other of the same name. -/
def register (engine : Engine) (name : String) (generator : Generator) :
    Except Failure Engine := do
  if name = execName then throw (.malformed (.reservedCommand name))
  let symbol ← Model.SymbolName.parse name
  if symbol.hidden then throw (.invalidName name)
  return { engine with registry := engine.registry.register name generator }

/-- Give a variable a value that every document starts with. -/
def bind (engine : Engine) (name : String) (value : Value) : Engine :=
  { engine with bindings := engine.bindings.insert name value }

/-- Run an action in a session of its own with a given context. -/
def inSession {ε α : Type} (context : Context) (action : EStateM ε Session α) :
    EStateM ε Engine α := fun engine =>
  let keep (session : Session) : Engine :=
    { engine with registry := session.registry, printed := session.printed }
  match action ⟨context, engine.registry, engine.printed⟩ with
  | .ok value session => .ok value (keep session)
  | .error failure session => .error failure (keep session)

/-- Change the registry. -/
def modifyRegistry {ε : Type} (change : Registry → Registry) : EStateM ε Engine Unit :=
  modify fun engine => { engine with registry := change engine.registry }

/-- Expand a document. -/
def expand (layout : Layout) (source : String) : EStateM Fault Engine String := do
  modifyRegistry Registry.reset
  match scan source with
  | .error error => throw (.unreadable error (Location.ofOffset source error.span.start))
  | .ok regions =>
    let context := { environment := .ofBindings (← get).bindings }
    let output ← inSession context (expandRegions source layout regions)
    modifyRegistry Registry.complete
    return output

/-- What is to be expanded: the text of a file, or what was read last. -/
inductive Input where
  | last
  | file (content : Option String)
  deriving DecidableEq, Repr, Inhabited

/-- What is done with the output: nothing, or an attempt to write it to a file. -/
inductive Destination where
  | none
  | file (writable : Bool)
  deriving DecidableEq, Repr, Inhabited

/-- The layout for files: constructs are shown, and the data are in one section. -/
def fileLayout : Layout := { dataMode := .consolidated, echo := true }

/-- Expand the text of a file, which is kept as the last input. The output is kept
even if it cannot be written. -/
def expandFile (input : Input) (destination : Destination) : EStateM Fault Engine String := do
  match input with
  | .last => pure ()
  | .file none => throw .fileAccess
  | .file (some text) => modify fun engine => { engine with input := text }
  let output ← expand fileLayout (← get).input
  modify fun engine => { engine with output }
  if destination = .file false then throw .fileAccess
  return output

/-- The text that is written for an output. -/
def fileText (output : String) : String := output ++ "\n"

/-- The submodels of the last document, in the order of their first calls. -/
def submodels (engine : Engine) : List String := engine.registry.used

/-- What a solution says about each call of a submodel. -/
def extract (engine : Engine) (name : String) (solution : Solution) :
    Except Failure (List Decoded) :=
  engine.registry.extract name solution

/-- The constraints of a submodel that a solution breaks. -/
def separate (engine : Engine) (name : String) (solution : Solution) :
    Except Failure (List Model.Constraint) :=
  engine.registry.separate name solution

end Engine

end ModelWeaver
