import ModelWeaver.Call.Arguments
import ModelWeaver.Snippet.Format
import ModelWeaver.Text.Letter
import ModelWeaver.Value.Order

/-!
# Methods of values

Texts, dicts and sequences have methods, which are looked up on a value by name
and then called.
-/

namespace ModelWeaver.Snippet.Method

/-- The names of the methods that a value has. -/
def names : Value → List String
  | .str _ =>
    ["format", "join", "upper", "lower", "strip", "split", "replace", "startswith", "endswith"]
  | .dict _ => ["keys", "values", "items", "get"]
  | .list _ | .tuple _ => ["index", "count"]
  | _ => []

/-- A text from characters. -/
def ofChars (cs : List Char) : Value := .str (String.ofList cs)

/-- Call a method of a text. -/
def callOnText (text : String) (name callee : String) (args : Arguments) :
    Option (Except Failure Value) :=
  let cs := text.toList
  let reading := args.reading (α := Value) callee
  match name with
  | "format" =>
    some do return .str (← Format.template text args.positional args.keyword)
  | "join" => some <| reading ["iterable"] 1 do
      let parts ← (← Bound.required "iterable").elements
      return .str (text.intercalate (← parts.mapM (m := Except Failure) Value.toStr))
  | "upper" => some <| reading [] 0 do return .str (Text.upper text)
  | "lower" => some <| reading [] 0 do return .str (Text.lower text)
  | "strip" => some <| reading [] 0 do return .str (Text.trim text)
  | "split" => some <| reading ["sep"] 0 do
      match ← Bound.take "sep" with
      | some separator =>
        return .list ((Text.split (← separator.toStr).toList cs).map ofChars)
      | none => return .list ((Text.fields Text.isBlank cs).map ofChars)
  | "replace" => some <| reading ["old", "new"] 2 do
      let old ← Bound.required "old"
      let new ← Bound.required "new"
      return ofChars (Text.replace (← old.toStr).toList (← new.toStr).toList cs)
  | "startswith" => some <| reading ["prefix"] 1 do
      let start ← (← Bound.required "prefix").toStr
      return .bool (Text.dropStart? start.toList cs).isSome
  | "endswith" => some <| reading ["suffix"] 1 do
      let stop ← (← Bound.required "suffix").toStr
      return .bool (Text.endsWith stop.toList cs)
  | _ => none

/-- Call a method of a dict. -/
def callOnDict (entries : Entries) (name callee : String) (args : Arguments) :
    Option (Except Failure Value) :=
  let reading := args.reading (α := Value) callee
  match name with
  | "keys" => some <| reading [] 0 do return .list (entries.map Prod.fst)
  | "values" => some <| reading [] 0 do return .list (entries.map Prod.snd)
  | "items" => some <| reading [] 0 do
      return .list (entries.map fun (key, value) => .tuple [key, value])
  | "get" => some <| reading ["key", "default"] 1 do
      let key ← Bound.required "key"
      match Value.lookup? entries key with
      | some value => return value
      | none => return (← Bound.take "default").getD .none
  | _ => none

/-- Call a method of a list or a tuple. -/
def callOnItems (items : List Value) (name callee : String) (args : Arguments) :
    Option (Except Failure Value) :=
  let reading := args.reading (α := Value) callee
  match name with
  | "index" => some <| reading ["value"] 1 do
      let value ← Bound.required "value"
      match items.findIdx? (· == value) with
      | some i => return .int (Int64.ofNat i)
      | none => throw (.badArgument (.notInList value.repr))
  | "count" => some <| reading ["value"] 1 do
      let value ← Bound.required "value"
      return .int (Int64.ofNat (items.countP (· == value)))
  | _ => none

/-- Call a method of a value. -/
def call (receiver : Value) (name : String) (args : Arguments) : Except Failure Value :=
  let callee := receiver.typeName ++ "." ++ name
  let result := match receiver with
    | .str text => callOnText text name callee args
    | .dict entries => callOnDict entries name callee args
    | .list items | .tuple items => callOnItems items name callee args
    | _ => none
  result.getD (.error (.noAttribute receiver.typeName name))

end ModelWeaver.Snippet.Method
