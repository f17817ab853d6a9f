import ModelWeaver.Number.Places
import ModelWeaver.Value.Basic

/-!
# Values as text

How a value is shown: `text` is its plain form, and `repr` the form in which it
appears inside another value, where texts are quoted.
-/

namespace ModelWeaver.Value

/-- The text of a float: whole numbers below 10 to the 16 keep one place, very
large and very small numbers have an exponent. -/
def floatText (x : Float) : String :=
  if x.isNaN then "nan"
  else if !x.isFinite then Number.plainText x
  else if Number.isWhole x && x.abs < 1e16 then Number.fixedText 1 x
  else if 1e16 ≤ x.abs || x.abs < 1e-4 then Number.scientificText x
  else Number.plainText x

/-- A text in quotes, with backslashes and quotes marked by a backslash. -/
def quote (text : String) : String :=
  String.ofList ('\'' :: text.toList.flatMap escape ++ ['\''])
where
  escape (c : Char) : List Char := if c = '\\' || c = '\'' then ['\\', c] else [c]

/-- The text of a function, a method or a command. -/
def callableText : Value → String
  | builtin function => s!"<built-in function {function.name}>"
  | method receiver name => s!"<method {name} of {receiver.typeName}>"
  | command name (some index) => s!"<command {name}[{index}]>"
  | command name Option.none => s!"<command {name}>"
  | _ => ""

/-- How a value of the given plain text is written inside another one. -/
def shown (value : Value) (plain : String) : String :=
  match value with
  | str text => quote text
  | _ => plain

mutual

/-- The plain text of a value. -/
def text : Value → String
  | none => "None"
  | bool value => if value then "True" else "False"
  | int value => toString value.toInt
  | float value => floatText value
  | str text => text
  | list items => "[" ++ ", ".intercalate (reprs [] items) ++ "]"
  | tuple items =>
    let close := if items.length = 1 then ",)" else ")"
    "(" ++ ", ".intercalate (reprs [] items) ++ close
  | dict entries => "\x7b" ++ ", ".intercalate (entryReprs [] entries) ++ "\x7d"
  | value => callableText value
termination_by structural value => value

/-- The inner texts of items, put behind those already `done`, last one first. -/
def reprs (done : List String) : List Value → List String
  | [] => done.reverse
  | item :: items => reprs (shown item (text item) :: done) items
termination_by structural items => items

/-- The inner texts of entries, put behind those already `done`, last one
first. -/
def entryReprs (done : List String) : List (Value × Value) → List String
  | [] => done.reverse
  | (key, value) :: entries =>
    entryReprs ((shown key (text key) ++ ": " ++ shown value (text value)) :: done) entries
termination_by structural entries => entries

end

/-- The text of a value inside another one. -/
def repr (value : Value) : String := shown value value.text

end ModelWeaver.Value
