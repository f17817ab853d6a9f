import ModelWeaver.Failure
import ModelWeaver.Text.Letter
import ModelWeaver.Text.Search

/-!
# Names of model symbols

A symbol is named by an identifier. A `^` in front of it hides the symbol: it is
registered, but its declaration is not written. Names may be listed, and may carry
the names of index sets in brackets.
-/

namespace ModelWeaver.Model

open Text

/-- The mark of a hidden name. -/
def hiddenMark : Char := '^'

/-- A name without the marks in front of it. -/
def stripMark (name : String) : String :=
  String.ofList (name.toList.dropWhile (· = hiddenMark))

/-- The name of a symbol. -/
structure SymbolName where
  name : String
  hidden : Bool := false
  deriving DecidableEq, Repr, Inhabited

/-- Whether characters form an identifier. -/
def isIdentifier : List Char → Bool
  | [] => false
  | c :: cs => (c.isAlpha || c = '_') && cs.all fun c => c.isAlphanum || c = '_'

namespace SymbolName

/-- How a name is written. -/
def render (symbol : SymbolName) : String :=
  if symbol.hidden then hiddenMark.toString ++ symbol.name else symbol.name

/-- Read a name from characters; blanks around it do not count. -/
def ofChars (cs : List Char) : Except Failure SymbolName :=
  let cs := trimBy isBlank cs
  let (hidden, name) := match cs with
    | '^' :: name => (true, name)
    | name => (false, name)
  if isIdentifier name then .ok ⟨String.ofList name, hidden⟩
  else .error (.invalidName (String.ofList cs))

/-- Read a name. -/
def parse (text : String) : Except Failure SymbolName := ofChars text.toList

/-- Read names between commas; a blank text lists none. -/
def parseList (cs : List Char) : Except Failure (List SymbolName) :=
  if cs.all isBlank then .ok []
  else (split [','] cs).mapM ofChars

/-- Read a name that index names in brackets may follow. -/
def parseIndexed (opener closer : Char) (text : String) :
    Except Failure (SymbolName × Option (List SymbolName)) := do
  let cs := trimBy isBlank text.toList
  let whole := String.ofList cs
  let before := cs.takeWhile (· ≠ opener)
  match cs.drop before.length with
  | [] => return (← ofChars cs, none)
  | _ :: rest =>
    if rest.getLast? ≠ some closer then throw (.invalidName whole)
    let name ← ofChars before
    let index ← parseList rest.dropLast
    if index.isEmpty then throw (.invalidName whole)
    return (name, some index)

end SymbolName

/-! ## Lists of variables -/

/-- Cut a text at the commas outside square brackets, unless a bracket closes that is not open.
`depth` of them are open, and `part` was read since the last cut, last character first. -/
def splitOutside? (depth : Nat) (part : List Char) : List Char → Option (List (List Char))
  | [] => some [part.reverse]
  | c :: cs =>
    if c = '[' then splitOutside? (depth + 1) (c :: part) cs
    else if c = ']' then
      if depth = 0 then none else splitOutside? (depth - 1) (c :: part) cs
    else if c = ',' && depth = 0 then
      (splitOutside? 0 [] cs).map (part.reverse :: ·)
    else splitOutside? depth (c :: part) cs

/-- Read one variable: a name, perhaps with a subscript that ends the text. -/
def parseVariable (part : List Char) : Except Failure String := do
  let part := trimBy isBlank part
  let base := part.takeWhile (· ≠ '[')
  if base.length < part.length && part.getLast? ≠ some ']' then
    throw (.invalidName (String.ofList part))
  let _ ← SymbolName.ofChars base
  return String.ofList part

/-- Read variables between commas. -/
def parseVariableList (text : String) : Except Failure (List String) :=
  match splitOutside? 0 [] text.toList with
  | none => .error (.invalidName text)
  | some parts => parts.mapM parseVariable

end ModelWeaver.Model
