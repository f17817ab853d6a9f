import ModelWeaver.Call.Arguments

/-!
# Calls of commands

What a command is given when it is called, and what is asked of solutions of the
model that it wrote.
-/

namespace ModelWeaver

/-- A call of a command. -/
structure Invocation where
  /-- The text between square brackets, as it stands. -/
  index : Option String := none
  arguments : Arguments := {}
  /-- The start of all names that the call makes up. -/
  stem : String := ""
  deriving Inhabited

namespace Invocation

/-- The index of a command that needs one. -/
def requireIndex (invocation : Invocation) (command : String) : Except Failure String :=
  match invocation.index with
  | some index => .ok index
  | none => .error (.malformed (.indexRequired command))

/-- Refuse the index of a command that takes none. -/
def forbidIndex (invocation : Invocation) (command : String) : Except Failure Unit :=
  match invocation.index with
  | some _ => .error (.malformed (.indexForbidden command))
  | none => .ok ()

end Invocation

/-! ## Solutions -/

/-- The values that a solution gives to the variables. -/
abbrev Solution := String → Float

/-- Equal paths through a solution, and how many there are. -/
structure DecodedPath where
  count : Nat
  labels : List String
  deriving DecidableEq, Repr, Inhabited

/-- What a solution says about one call of a command. -/
structure Decoded where
  /-- The main variable of the call. -/
  name : String
  value : Float
  paths : List DecodedPath
  deriving Inhabited

end ModelWeaver
