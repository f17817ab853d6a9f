import ModelWeaver.Model.Linear
import ModelWeaver.Model.SymbolTable

/-!
# Declarations

The text of sets, parameters, variables and constraints in the modelling
language, and their registration.
-/

namespace ModelWeaver.Model

/-- A text as a literal, with quotes doubled. -/
def quoteLiteral (text : String) : String :=
  String.ofList ('\'' :: text.toList.flatMap escape ++ ['\''])
where
  escape (c : Char) : List Char := if c = '\'' then [c, c] else [c]

mutual

/-- The literal of a set member or a parameter value. -/
def literal (value : Value) : Except Failure String :=
  match value with
  | .int n => .ok (toString n.toInt)
  | .float x => .ok (numberText x)
  | .bool b => .ok (if b then "1" else "0")
  | .str text => .ok (quoteLiteral text)
  | .tuple items => do return "(" ++ ",".intercalate (← literals items) ++ ")"
  | value => value.mismatch "number, string or tuple"
termination_by structural value

/-- The literals of several values. -/
def literals : List Value → Except Failure (List String)
  | [] => .ok []
  | item :: items => do return (← literal item) :: (← literals items)
termination_by structural items => items

end

/-- The key of a parameter value in brackets; the parts of a tuple stand side by
side. -/
def keyLiteral (key : Value) : Except Failure String := do
  match key with
  | .tuple items => return "[" ++ ",".intercalate (← literals items) ++ "]"
  | key => return "[" ++ (← literal key) ++ "]"

/-- Register a symbol that has a text. The text is empty if the declaration is not to be
written. -/
def declare {τ : Type} [Inhabited τ] (text : Except Failure τ)
    (registration : Action SymbolTable Registration) : Action SymbolTable τ := do
  let text ← text
  return if (← registration) = .emit then text else default

/-! ## Sets -/

/-- The declaration of a set. -/
def setText (name : String) (members : List Value) : Except Failure String := do
  let members := ",".intercalate (← literals members)
  return s!"set {name} := \x7b{members}\x7d;"

/-- Register a set. -/
def declareSet (symbol : SymbolName) (members : List Value) : Action SymbolTable String :=
  declare (setText symbol.name members) (SymbolTable.registerSet symbol members)

/-! ## Parameters -/

/-- The texts of a parameter: its declaration in the model, and its values in the data, which
scalars do not have. -/
structure ParamText where
  defs : String := ""
  data : String := ""
  deriving DecidableEq, Repr, Inhabited

/-- The text of one parameter value. -/
def entryText (entry : Value × Value) : Except Failure String := do
  return (← keyLiteral entry.1) ++ (← literal entry.2)

/-- The texts of a parameter over an index, which a dict must have. -/
def paramText (name : String) (index : Option String) (value : Value) :
    Except Failure ParamText := do
  match value, index with
  | .dict entries, some index =>
    let values ← entries.mapM entryText
    return {
      defs := s!"param {name}\x7b{index}\x7d;"
      data := s!"param {name} := {String.join values};" }
  | .dict _, none => throw (.badArgument (.paramIndexMissing name))
  | scalar, _ =>
    let scalar ← literal scalar
    return { defs := s!"param {name} := {scalar};" }

/-- Register a parameter. -/
def declareParam (symbol : SymbolName) (index : Option String) (value : Value) :
    Action SymbolTable ParamText :=
  declare (paramText symbol.name index value) (SymbolTable.registerParam symbol value)

/-! ## Variables and constraints -/

/-- A bound of a variable. -/
def boundText (relation : String) : Option Value → Except Failure String
  | some value => do
      let value ← literal value
      return s!", {relation} {value}"
  | none => .ok ""

/-- The declaration of a variable; nothing if its name is hidden. -/
def declareVariable (symbol : SymbolName) (index : Option String) (type : String)
    (lower upper : Option Value) : Except Failure String := do
  if symbol.hidden then return ""
  let index := match index with
    | some index => s!"\x7b{index}\x7d"
    | none => ""
  let type := if type.isEmpty then "" else s!", {type}"
  return s!"var {symbol.name}{index}{type}" ++ (← boundText ">=" lower) ++
    (← boundText "<=" upper) ++ ";"

/-- The statement of a constraint. A hidden one is checked, but not written. -/
def declareConstraint (symbol : SymbolName) (left : Value) (sign : String) (right : Value) :
    Except Failure String := do
  let constraint ← Constraint.ofValues left sign right
  return if symbol.hidden then "" else constraint.statement symbol.name

end ModelWeaver.Model
