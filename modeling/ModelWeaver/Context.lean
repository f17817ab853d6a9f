import ModelWeaver.Model.SymbolTable

/-!
# The state of a document

What the constructs of one document share: the variables of the snippets, the
declared symbols, and the three buffers in which a construct leaves its text.
-/

namespace ModelWeaver

/-! ## Scopes -/

/-- The variables that snippets see. Scopes are stacked on the scope of the
document, which is always there. -/
structure Environment where
  /-- The scopes inside the one of the document, the innermost first. -/
  inner : List (NameMap Value) := []
  document : NameMap Value := {}
  deriving Inhabited

namespace Environment

/-- The environment in which the document starts with the given variables. -/
def ofBindings (bindings : NameMap Value) : Environment := { document := bindings }

/-- Open a scope. -/
def push (environment : Environment) : Environment :=
  { environment with inner := {} :: environment.inner }

/-- Close the innermost scope. That of the document stays. -/
def pop (environment : Environment) : Environment :=
  { environment with inner := environment.inner.tail }

/-- The value of a variable, looked up from the innermost scope outwards. -/
def get? (environment : Environment) (name : String) : Option Value :=
  (environment.inner ++ [environment.document]).findSome? fun scope => scope.get? name

/-- Give a variable of the innermost scope a value. -/
def set (environment : Environment) (name : String) (value : Value) : Environment :=
  match environment.inner with
  | [] => { environment with document := environment.document.insert name value }
  | scope :: scopes => { environment with inner := scope.insert name value :: scopes }

end Environment

/-! ## Buffers -/

/-- The text that a construct produces. -/
structure Fragment where
  /-- Declarations of sets and parameters, which go before the model text. -/
  defs : String := ""
  /-- What takes the place of the construct. -/
  model : String := ""
  /-- Statements of the data section. -/
  data : String := ""
  deriving DecidableEq, Repr, Inhabited

/-- One of the three texts of a fragment. -/
inductive Buffer where
  | defs
  | model
  | data
  deriving DecidableEq, Repr, Inhabited

namespace Buffer

/-- The name under which snippets read and write a buffer. -/
def name : Buffer → String
  | defs => "_defs"
  | model => "_model"
  | data => "_data"

/-- The buffer of a given name. -/
def ofName? (name : String) : Option Buffer := [defs, model, data].find? (·.name = name)

end Buffer

namespace Fragment

/-- The text in a buffer. -/
def get (fragment : Fragment) : Buffer → String
  | .defs => fragment.defs
  | .model => fragment.model
  | .data => fragment.data

/-- Put another text into a buffer. -/
def set (fragment : Fragment) (buffer : Buffer) (text : String) : Fragment :=
  match buffer with
  | .defs => { fragment with defs := text }
  | .model => { fragment with model := text }
  | .data => { fragment with data := text }

/-- Add a text at the end of a buffer. -/
def append (fragment : Fragment) (buffer : Buffer) (text : String) : Fragment :=
  fragment.set buffer (fragment.get buffer ++ text)

end Fragment

/-! ## Contexts -/

/-- What the constructs of a document share. -/
structure Context where
  environment : Environment := {}
  symbols : Model.SymbolTable := {}
  buffers : Fragment := {}
  deriving Inhabited

namespace Context

/-- The name under which snippets read the declared sets. -/
def setsName : String := "_sets"

/-- The name under which snippets read the declared parameters. -/
def paramsName : String := "_params"

/-- Whether a name can be read but not assigned. -/
def isReadOnly (name : String) : Bool := name = setsName || name = paramsName

/-- The value of a name that stands for a buffer or for declared symbols. -/
def view? (context : Context) (name : String) : Option Value :=
  match Buffer.ofName? name with
  | some buffer => some (.str (context.buffers.get buffer))
  | none =>
    if name = setsName then some context.symbols.setsView
    else if name = paramsName then some context.symbols.paramsView
    else none

/-- Add a text at the end of a buffer. -/
def emit (context : Context) (buffer : Buffer) (text : String) : Context :=
  { context with buffers := context.buffers.append buffer text }

/-- Run an action on the declared symbols. -/
def onSymbols {α : Type} : Action Model.SymbolTable α → Action Context α :=
  onPart symbols fun context symbols => { context with symbols }

end Context

end ModelWeaver
