import ModelWeaver.Value.Basic

/-!
# Arguments of a call

Evaluated arguments, and their matching against a list of parameters. Matched
arguments are taken one parameter at a time; a parameter that got no argument,
and one that got an explicit `None`, both count as absent.
-/

namespace ModelWeaver

/-- The arguments of a call: those without a name, then those with one. -/
structure Arguments where
  positional : List Value := []
  keyword : List (String × Value) := []
  deriving Inhabited

/-- Arguments matched to parameters. Each parameter is listed with its argument,
as long as that has not been taken. -/
structure Bound where
  callee : String
  slots : List (String × Option Value)
  deriving Inhabited

namespace Arguments

/-- Refuse arguments with a name. -/
def noKeywords (args : Arguments) (callee : String) : Except Failure Unit :=
  match args.keyword with
  | [] => .ok ()
  | (name, _) :: _ => .error (.badArgument (.unexpectedKeyword callee name))

/-- Give an argument to the parameter of its name. -/
def fill (callee : String) (slots : List (String × Option Value)) (name : String)
    (value : Value) : Except Failure (List (String × Option Value)) :=
  match slots.lookup name with
  | none => .error (.badArgument (.unexpectedKeyword callee name))
  | some (some _) => .error (.badArgument (.repeated callee name))
  | some none =>
    .ok (slots.map fun slot => if slot.1 == name then (slot.1, some value) else slot)

/-- Match arguments against parameters, the first `required` of which must get
one. -/
def bind (args : Arguments) (callee : String) (params : List String) (required : Nat) :
    Except Failure Bound := do
  let given := args.positional.length
  if params.length < given then
    throw (.badArgument (.tooMany callee params.length given))
  let values := args.positional.map some ++ List.replicate (params.length - given) none
  let slots ← args.keyword.foldlM (fun slots (name, value) => fill callee slots name value)
    (params.zip values)
  match (slots.take required).find? fun slot => slot.2.isNone with
  | some (name, _) => throw (.badArgument (.missing callee name))
  | none => return ⟨callee, slots⟩

end Arguments

/-- A computation that takes matched arguments. -/
abbrev Taking := StateT Bound (Except Failure)

namespace Bound

/-- Take the argument of a parameter. Taking it leaves the parameter without
one. -/
def take (name : String) : Taking (Option Value) := do
  let bound ← get
  let slots := bound.slots.map fun slot => if slot.1 == name then (slot.1, none) else slot
  set { bound with slots }
  match bound.slots.lookup name with
  | some (some .none) | some none | none => return none
  | some (some value) => return some value

/-- Take an argument that must not be absent. -/
def required (name : String) : Taking Value := do
  let callee := (← get).callee
  match ← take name with
  | some value => return value
  | none => throw (.badArgument (.missing callee name))

/-- Take an argument and read it as a truth value; an absent one is false. -/
def flag (name : String) : Taking Bool :=
  return (← take name).any Value.isTruthy

end Bound

/-- Match arguments against parameters and take them. -/
def Arguments.reading {α : Type} (args : Arguments) (callee : String)
    (params : List String) (required : Nat) (taking : Taking α) : Except Failure α := do
  let bound ← args.bind callee params required
  taking.run' bound

end ModelWeaver
