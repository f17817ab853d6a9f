import ModelWeaver.Failure
import ModelWeaver.Number.Exact

/-!
# Values of the snippet language

The values that snippets compute with, their types, their views as numbers and
texts, and the elements that come out of iterating over them.
-/

namespace ModelWeaver

/-- Functions that every snippet can call. -/
inductive Builtin where
  | range
  | zip
  | len
  | abs
  | min
  | max
  | sum
  | list
  | tuple
  | dict
  | str
  | int
  | float
  | sorted
  | enumerate
  | round
  | print
  deriving DecidableEq, Repr, Inhabited

namespace Builtin

/-- The name that snippets call a function by. -/
def name : Builtin → String
  | range => "range"
  | zip => "zip"
  | len => "len"
  | abs => "abs"
  | min => "min"
  | max => "max"
  | sum => "sum"
  | list => "list"
  | tuple => "tuple"
  | dict => "dict"
  | str => "str"
  | int => "int"
  | float => "float"
  | sorted => "sorted"
  | enumerate => "enumerate"
  | round => "round"
  | print => "print"

/-- All functions. -/
def all : List Builtin :=
  [range, zip, len, abs, min, max, sum, list, tuple, dict, str, int, float, sorted, enumerate,
    round, print]

/-- The function of a given name. -/
def ofName? (name : String) : Option Builtin := all.find? (·.name = name)

end Builtin

/-- A value. A dict keeps its entries in the order of insertion. -/
inductive Value where
  | none
  | bool (value : Bool)
  | int (value : Int64)
  | float (value : Float)
  | str (text : String)
  | list (items : List Value)
  | tuple (items : List Value)
  | dict (entries : List (Value × Value))
  | builtin (function : Builtin)
  /-- A method looked up on a value. -/
  | method (receiver : Value) (name : String)
  /-- A command, perhaps with its index. -/
  | command (name : String) (index : Option String)
  deriving Inhabited

/-- The entries of a dict. -/
abbrev Entries := List (Value × Value)

namespace Value

/-- The name of a value's type. -/
def typeName : Value → String
  | none => "NoneType"
  | bool _ => "bool"
  | int _ => "int"
  | float _ => "float"
  | str _ => "str"
  | list _ => "list"
  | tuple _ => "tuple"
  | dict _ => "dict"
  | builtin _ => "builtin_function"
  | method _ _ => "method"
  | command _ _ => "command"

/-- Whether a value counts as true in a condition. -/
def isTruthy : Value → Bool
  | none => false
  | bool value => value
  | int value => value != 0
  | float value => value != 0.0
  | str text => !text.isEmpty
  | list items | tuple items => !items.isEmpty
  | dict entries => !entries.isEmpty
  | builtin _ | method _ _ | command _ _ => true

/-- Whether a value is a number; truth values are. -/
def isNumber : Value → Bool
  | bool _ | int _ | float _ => true
  | _ => false

/-- The number of a truth value. -/
def boolInt (value : Bool) : Int64 := if value then 1 else 0

/-- A value as an integer, unless it is a float. -/
def int? : Value → Option Int64
  | int value => some value
  | bool value => some (boolInt value)
  | _ => Option.none

/-- A value as a float. -/
def float? : Value → Option Float
  | float value => some value
  | int value => some (Float.ofInt value.toInt)
  | bool value => some (Float.ofInt (boolInt value).toInt)
  | _ => Option.none

/-- A failure that names the type of a value where another was expected. -/
def mismatch {α : Type} (value : Value) (expected : String) : Except Failure α :=
  .error (.typeMismatch expected value.typeName)

/-- A value as a float, which it must be. -/
def toNumber (value : Value) : Except Failure Float :=
  match value.float? with
  | some x => .ok x
  | Option.none => value.mismatch "number"

/-- A value as an integer, which it must be; floats without a fraction are, and
large ones stop at the ends of the 64-bit range. -/
def toInteger (value : Value) : Except Failure Int64 :=
  match value with
  | float x => if Number.isWhole x then .ok (Number.toInt64 x) else value.mismatch "integer"
  | value =>
    match value.int? with
    | some n => .ok n
    | Option.none => value.mismatch "integer"

/-- A value as a text, which it must be. -/
def toStr (value : Value) : Except Failure String :=
  match value with
  | str text => .ok text
  | value => value.mismatch "str"

/-- The elements of a value in turn: the items of a sequence, the keys of a dict or the
characters of a text. -/
def elements (value : Value) : Except Failure (List Value) :=
  match value with
  | list items | tuple items => .ok items
  | dict entries => .ok (entries.map Prod.fst)
  | str text => .ok (text.toList.map fun c => str c.toString)
  | value => value.mismatch "iterable"

end Value

end ModelWeaver
