import ModelWeaver.Context
import ModelWeaver.Generator.Invocation
import ModelWeaver.Model.Program

/-!
# Ordered sets

`SOS1` lets at most one of some variables differ from zero, and `SOS2` at most
two, which must then be neighbours. Binary selectors say which.
-/

namespace ModelWeaver.OrderedSet

open Model

/-- The two kinds of ordered sets. -/
inductive Kind where
  | one
  | two
  deriving DecidableEq, Repr, Inhabited

/-- The command of a kind. -/
def Kind.command : Kind → String
  | one => "SOS1"
  | two => "SOS2"

/-- The name of a selector. -/
def selector (stem : String) (i : Nat) : String := s!"{stem}y_{i}"

/-- The names of the first selectors. -/
def selectors (stem : String) (count : Nat) : List String :=
  (List.range count).map (selector stem)

/-- A binary variable. -/
def binary (name : String) : Variable := { name, type := .binary }

/-! ## Relations

They hold between numbers of any type with a one.
-/

section Relations

variable {κ : Type} [OfNat κ 1]

/-- Exactly one of the selectors is chosen. -/
def oneSelected (stem : String) (count : Nat) : Relation κ :=
  ⟨.ofNames (selectors stem count), .eq, .constant 1⟩

/-- Each variable is at most `upper` times its own selector, and one selector is
chosen. -/
def relations1 (stem : String) (names : List String) (upper : κ) : List (Relation κ) :=
  (names.zipIdx.map fun (name, i) => ⟨.single name, .le, .term (selector stem i) upper⟩) ++
    [oneSelected stem names.length]

/-- What bounds a variable of an ordered set of the second kind: the selectors of
the one or two gaps next to it. -/
def bound2 {κ : Type} (stem : String) (count i : Nat) (upper : κ) : Operand κ :=
  if i = 0 then .term (selector stem 0) upper
  else if i = count - 1 then .term (selector stem (i - 1)) upper
  else .sum [.term (selector stem (i - 1)) upper, .term (selector stem i) upper]

/-- Each variable is at most `upper` times the selectors next to it, and one
selector is chosen. -/
def relations2 (stem : String) (names : List String) (upper : κ) : List (Relation κ) :=
  (names.zipIdx.map fun (name, i) => ⟨.single name, .le, bound2 stem names.length i upper⟩) ++
    [oneSelected stem (names.length - 1)]

end Relations

/-! ## Commands -/

/-- The program of an ordered set. -/
def program (kind : Kind) (stem : String) (names : List String) (upper : Float) :
    Except Failure Program := do
  let members := names.map fun name => { name : Variable }
  match kind with
  | .one =>
    Program.build (members ++ (selectors stem names.length).map binary)
      (relations1 stem names upper)
  | .two =>
    if names.length < 2 then throw (.badArgument .sos2TooFew)
    Program.build (members ++ (selectors stem (names.length - 1)).map binary)
      (relations2 stem names upper)

/-- `SOS1{varl, ub=1}` and `SOS2{varl, ub=1}` -/
def run (kind : Kind) (invocation : Invocation) : Action Context Unit := do
  invocation.forbidIndex kind.command
  let (names, upper) ← invocation.arguments.reading kind.command ["varl", "ub"] 1 do
    let names ← (← (← Bound.required "varl").elements).mapM fun name => liftM name.toStr
    let upper ← match ← Bound.take "ub" with
      | some upper => liftM upper.toNumber
      | none => pure 1.0
    return (names, upper)
  let program ← program kind invocation.stem names upper
  modify (·.emit .model (program.renderFor invocation.stem names))

end ModelWeaver.OrderedSet
