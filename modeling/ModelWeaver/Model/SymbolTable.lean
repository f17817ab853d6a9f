import ModelWeaver.Action
import ModelWeaver.Model.SymbolName
import ModelWeaver.NameMap
import ModelWeaver.Value.Order
import ModelWeaver.Value.Text

/-!
# Declared symbols

The sets and parameters that a document has declared so far. A symbol may be
declared again with an equal value; its declaration is written once, at the first
time that its name is not hidden.
-/

namespace ModelWeaver.Model

/-- A declared value, and whether its declaration was written. -/
structure Declared (α : Type) where
  value : α
  emitted : Bool
  deriving Inhabited

/-- What to do with the text of a declaration. -/
inductive Registration where
  | emit
  /-- Leave it out: it was written before, or the name is hidden. -/
  | silent
  deriving DecidableEq, Repr, Inhabited

/-- Sets and parameters by name. -/
structure SymbolTable where
  sets : NameMap (Declared (List Value)) := {}
  params : NameMap (Declared Value) := {}
  deriving Inhabited

/-- Declare a value under a name. `same` compares it with one declared before, and
`describe` words a conflict between the two. -/
def register {α : Type} (symbol : SymbolName) (value : α) (same : α → α → Bool)
    (describe : α → String) : Action (NameMap (Declared α)) Registration := do
  match (← get).get? symbol.name with
  | none =>
    modify (·.insert symbol.name ⟨value, !symbol.hidden⟩)
    return if symbol.hidden then .silent else .emit
  | some existing =>
    if !same existing.value value then
      throw (.declarationConflict symbol.name (describe existing.value) (describe value))
    else if !symbol.hidden && !existing.emitted then
      modify (·.insert symbol.name { existing with emitted := true })
      return .emit
    else
      return .silent

namespace SymbolTable

/-- Declare a set. -/
def registerSet (symbol : SymbolName) (members : List Value) : Action SymbolTable Registration :=
  onPart sets (fun table sets => { table with sets })
    (register symbol members Value.allEqual fun members => (Value.list members).text)

/-- Declare a parameter. -/
def registerParam (symbol : SymbolName) (value : Value) : Action SymbolTable Registration :=
  onPart params (fun table params => { table with params })
    (register symbol value Value.equals Value.text)

/-- The members of a set. -/
def set? (table : SymbolTable) (name : String) : Option (List Value) :=
  (table.sets.get? name).map Declared.value

/-- The value of a parameter. -/
def param? (table : SymbolTable) (name : String) : Option Value :=
  (table.params.get? name).map Declared.value

/-- The sets as a value. -/
def setsView (table : SymbolTable) : Value :=
  .dict (table.sets.entries.map fun (name, declared) => (.str name, .list declared.value))

/-- The parameters as a value. -/
def paramsView (table : SymbolTable) : Value :=
  .dict (table.params.entries.map fun (name, declared) => (.str name, declared.value))

end SymbolTable

end ModelWeaver.Model
