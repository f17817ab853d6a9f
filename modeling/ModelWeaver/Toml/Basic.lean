import ModelWeaver.NameMap
import ModelWeaver.Toml.Moment
import ModelWeaver.Value.Basic

/-!
# Settings in TOML

The values of a settings file: numbers, truth values, texts, points in time, arrays
and tables. Tables keep the order of the file, because the first key of a table may
say that the table stands for a point in time.
-/

namespace ModelWeaver

/-- How a table came about, which decides what may still be added to it. -/
inductive Toml.Origin where
  /-- By its own header. -/
  | header
  /-- As part of the path in the header of another table. -/
  | path
  /-- As part of a dotted key. -/
  | dotted
  /-- Written in braces, and complete. -/
  | inline
  deriving DecidableEq, Repr, Inhabited

/-- A value of a settings file. -/
inductive Toml where
  | int (value : Int64)
  | float (value : Float)
  | bool (value : Bool)
  | str (text : String)
  | moment (value : Toml.Moment)
  | array (items : List Toml)
  /-- Tables under one header in double brackets, the last first. -/
  | tables (items : List Toml)
  /-- A table with distinct keys, the last entry first. -/
  | table (origin : Toml.Origin) (entries : List (String × Toml))
  deriving Inhabited

namespace Toml

/-- The items of an array. -/
def items? : Toml → Option (List Toml)
  | array items => some items
  | tables items => some items.reverse
  | _ => none

/-- A truth value. -/
def bool? : Toml → Option Bool
  | bool value => some value
  | _ => none

/-- A text. -/
def str? : Toml → Option String
  | str text => some text
  | _ => none

/-- A number. -/
def number? : Toml → Option Float
  | int value => some (Float.ofInt value.toInt)
  | float value => some value
  | _ => none

/-! ## Values for snippets -/

/-- The first key of a table that stands for a point in time. -/
def momentKey : String := "$__toml_private_datetime"

/-- The point in time that a table stands for, given its entries, the last first: `none` if it
stands for itself, `some none` if the text under its first key is no point in time. -/
def taggedMoment? (entries : List (String × Toml)) : Option (Option Moment) :=
  match entries.getLast? with
  | some (key, value) =>
    if key = momentKey then some (value.str?.bind Moment.ofText?) else none
  | none => none

mutual

/-- A value for snippets. Points in time become texts. -/
def toValue? : Toml → Option Value
  | int value => some (.int value)
  | float value => some (.float value)
  | bool value => some (.bool value)
  | str text => some (.str text)
  | moment value => some (.str value.render)
  | array items => return .list (← toValues? items)
  | tables items => return .list (← toValues? items).reverse
  | table _ entries =>
    match taggedMoment? entries with
    | some tagged => return .str (← tagged).render
    | none => do
        let values := NameMap.ofDistinct (← toEntries? entries)
        return .dict (values.entries.map fun (key, value) => (.str key, value))
termination_by structural toml => toml

/-- Several values. -/
def toValues? : List Toml → Option (List Value)
  | [] => some []
  | item :: items => do return (← toValue? item) :: (← toValues? items)
termination_by structural items => items

/-- The values under the keys of a table. -/
def toEntries? : List (String × Toml) → Option (List (String × Value))
  | [] => some []
  | (key, value) :: entries => do return (key, ← toValue? value) :: (← toEntries? entries)
termination_by structural entries => entries

end

/-- The variables that a table defines. A point in time defines one, its own text. -/
def bindings? : Toml → Option (NameMap Value)
  | table _ entries => return NameMap.ofDistinct (← toEntries? entries)
  | moment value => some (NameMap.ofDistinct [(momentKey, .str value.render)])
  | _ => none

end Toml

end ModelWeaver
