import ModelWeaver.Model.Linear

/-!
# Linear programs

Variables and constraints that a generator collects before it writes them as
statements of the modelling language.
-/

namespace ModelWeaver.Model

/-- The domain of a variable. -/
inductive VarType where
  | continuous
  | integer
  | binary
  deriving DecidableEq, Repr, Inhabited

/-- A variable with its bounds. -/
structure Variable where
  name : String
  lower : Option Float := none
  upper : Option Float := none
  type : VarType := .continuous
  deriving Inhabited

/-- The declaration of a variable. Binary ones need no bounds. -/
def Variable.statement (v : Variable) : String :=
  let bound (relation : String) (value : Option Float) : String :=
    match value with
    | some x => s!", {relation} {numberText x}"
    | none => ""
  let bounds := bound ">=" v.lower ++ bound "<=" v.upper
  match v.type with
  | .binary => s!"var {v.name}, binary;"
  | .integer => s!"var {v.name}, integer{bounds};"
  | .continuous => s!"var {v.name}{bounds};"

/-- Variables and named constraints, in the order in which they were added. -/
structure Program where
  vars : Array Variable := #[]
  constraints : Array (String × Constraint) := #[]
  deriving Inhabited

namespace Program

/-- Add a variable. -/
def addVariable (program : Program) (v : Variable) : Program :=
  { program with vars := program.vars.push v }

/-- Add several variables. -/
def addVariables (program : Program) (vs : List Variable) : Program :=
  vs.foldl addVariable program

/-- The name that a variable without one gets. -/
def nextVariableName (program : Program) : String := s!"x{program.vars.size}"

/-- The name that the next constraint gets. -/
def nextConstraintName (program : Program) : String := s!"c{program.constraints.size}"

/-- Add the constraint of a relation. -/
def addRelation (program : Program) (relation : Relation Float) : Except Failure Program := do
  let constraint ← Constraint.ofRelation relation
  let name := program.nextConstraintName
  return { program with constraints := program.constraints.push (name, constraint) }

/-- The program of some variables and relations. -/
def build (vars : List Variable) (relations : List (Relation Float)) : Except Failure Program :=
  relations.foldlM addRelation (addVariables {} vars)

/-- Give the variables other names, wherever they occur. -/
def renameVariables (program : Program) (newName : String → String) : Program where
  vars := program.vars.map fun v => { v with name := newName v.name }
  constraints := program.constraints.map fun (name, constraint) =>
    (name, constraint.rename newName)

/-- Give the constraints other names. -/
def renameConstraints (program : Program) (newName : String → String) : Program :=
  { program with constraints := program.constraints.map fun (name, constraint) =>
      (newName name, constraint) }

/-- Whether a variable is declared here, and neither in `declared` nor hidden nor an
element of an indexed variable. -/
def isDeclaredHere (declared : List String) (v : Variable) : Bool :=
  !declared.contains v.name && v.name.toList.head? ≠ some hiddenMark &&
    !v.name.toList.contains '['

/-- The statements of a program, one on each line. -/
def render (program : Program) (declared : List String) : String :=
  let vars := program.vars.toList.filter (isDeclaredHere declared)
  "\n".intercalate (vars.map Variable.statement ++
    program.constraints.toList.map fun (name, constraint) => constraint.statement name)

/-- The statements of a program whose constraints get names that start with
`stem`. -/
def renderFor (program : Program) (stem : String) (declared : List String) : String :=
  (program.renameConstraints (stem ++ ·)).render declared

end Program

end ModelWeaver.Model
