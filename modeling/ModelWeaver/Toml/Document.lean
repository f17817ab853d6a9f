import ModelWeaver.Toml.Scalar

/-!
# Settings files

A settings file is a list of entries and of headers that open tables. Tables are
built along the way: a path in a header or a dotted key makes the tables it passes
through, but no key is given twice and no table is opened twice.
-/

namespace ModelWeaver.Toml.Document

open Reader

/-! ## Tables -/

/-- A table that is being built, its last entry first. -/
structure Table where
  origin : Origin
  entries : List (String × Toml) := []

namespace Table

/-- The table as a value. -/
def toToml (table : Table) : Toml := .table table.origin table.entries

/-- The value under a key. -/
def get? (table : Table) (key : String) : Option Toml := table.entries.lookup key

/-- Put a value under a new key. -/
def add (table : Table) (key : String) (value : Toml) : Table :=
  { table with entries := (key, value) :: table.entries }

/-- Put another value under a key, which keeps its place. -/
def set (table : Table) (key : String) (value : Toml) : Table :=
  { table with entries := table.entries.map fun entry =>
      if entry.1 = key then (key, value) else entry }

/-- The table without a key. -/
def erase (table : Table) (key : String) : Table :=
  { table with entries := table.entries.filter fun entry => entry.1 ≠ key }

/-- Change the table at the end of a path. Missing tables are made; of several under one header
the last counts. A dotted key does not pass through tables with a header of their own. -/
def descend {α : Type} (dotted : Bool) (change : Table → Option (α × Table)) :
    (path : List String) → Table → Option (α × Table)
  | [], parent => change parent
  | key :: path, parent =>
    match parent.get? key with
    | none => do
        let (result, child) ← descend dotted change path
          { origin := if dotted then .dotted else .path }
        return (result, parent.add key child.toToml)
    | some (.table .inline _) => none
    | some (.table origin entries) => do
        if dotted && origin = .header then none
        let (result, child) ← descend dotted change path { origin, entries }
        return (result, parent.set key child.toToml)
    | some (.tables (.table origin entries :: earlier)) => do
        let (result, child) ← descend dotted change path { origin, entries }
        return (result, parent.set key (.tables (child.toToml :: earlier)))
    | some _ => none

/-- Add an entry under a dotted key. The tables on its path must be made by dotted
keys, and the entry must be new. -/
def addEntry (table : Table) (path : List String) (key : String) (value : Toml) :
    Option Table := do
  let ((), table) ← descend true (fun table => do
    if (table.origin == .dotted) == path.isEmpty then none
    if (table.get? key).isSome then none
    return ((), table.add key value)) path table
  return table

end Table

/-! ## Keys and values -/

/-- Arrays, tables in braces and dotted keys are followed up to this depth. -/
def maxDepth : Nat := 80

/-- Read one part of a key. -/
def keyPart : Reader String :=
  Scalar.basicText <|> Scalar.literalText <|>
    (do return String.ofList (← takeSome fun c => c.isAlphanum || c = '_' || c = '-'))

/-- Read a key: the parts before the last, and the last. -/
def key : Reader (List String × String) := do
  let parts ← separated (do blanks; let part ← keyPart; blanks; return part) (char '.')
  if maxDepth ≤ parts.length then failure
  match parts.getLast? with
  | some last => return (parts.dropLast, last)
  | none => failure

/-- Read an array, given a reader of its items. -/
def array (item : Reader Toml) : Reader Toml := do
  char '['
  let items ← maybe (separated (do gap; let value ← item; gap; return value) (char ','))
  if items.isSome then discard (maybe (char ','))
  gap
  char ']'
  return .array (items.getD [])

/-- Read an entry, given a reader of values. -/
def entry (value : Reader Toml) : Reader ((List String × String) × Toml) := do
  let key ← key
  char '='
  blanks
  return (key, ← value)

/-- Read a table in braces, given a reader of its values. -/
def inlineTable (value : Reader Toml) : Reader Toml := do
  char '{'
  blanks
  let entries ← maybe (separated (do let read ← entry value; blanks; return read) (char ','))
  blanks
  char '}'
  let table ← (entries.getD []).foldlM (fun (table : Table) ((path, key), value) =>
    table.addEntry path key value) { origin := .inline }
  return table.toToml

/-- Read a value, in which arrays and tables are nested up to a depth. -/
def value : (depth : Nat) → Reader Toml
  | 0 => Scalar.read
  | depth + 1 => array (value depth) <|> inlineTable (value depth) <|> Scalar.read

/-! ## Documents -/

/-- The root table, and the table that entries go to now, at its path. -/
structure Building where
  root : Table := { origin := .header }
  current : Table := { origin := .header }
  path : List String := []
  /-- Whether the current table is one of several under its header. -/
  isItem : Bool := false

namespace Building

/-- Put the current table in its place. -/
def close (building : Building) : Option Table := do
  match building.path.getLast? with
  | none => return building.current
  | some key =>
    let ((), root) ← Table.descend false (fun parent =>
      let current := building.current.toToml
      match building.isItem, parent.get? key with
      | true, none => some ((), parent.add key (.tables [current]))
      | true, some (.tables items) => some ((), parent.set key (.tables (current :: items)))
      | false, none => some ((), parent.add key current)
      | _, _ => none) building.path.dropLast building.root
    return root

/-- Open the table of a header. Only a table that was made for the sake of others may
be there already. -/
def openTable (root : Table) (path : List String) (key : String) : Option Building := do
  let (current, root) ← Table.descend false (fun parent =>
    match parent.get? key with
    | none => some ({ origin := .header : Table }, parent)
    | some (.table .path entries) =>
      some ({ origin := .header, entries }, parent.erase key)
    | some _ => none) path root
  return { root, current, path := path ++ [key] }

/-- Open a table of a header in double brackets. -/
def openItem (root : Table) (path : List String) (key : String) : Option Building := do
  let ((), root) ← Table.descend false (fun parent =>
    match parent.get? key with
    | none => some ((), parent.add key (.tables []))
    | some (.tables _) => some ((), parent)
    | some _ => none) path root
  return { root, current := { origin := .header }, path := path ++ [key], isItem := true }

end Building

/-- Read a header. -/
def header (building : Building) : Reader Building := do
  let isItem ← (do word "[["; return true) <|> (do char '['; return false)
  let (path, last) ← key
  if isItem then word "]]" else char ']'
  restOfLine
  let root ← building.close
  if isItem then Building.openItem root path last else Building.openTable root path last

/-- Read an entry of the current table. -/
def tableEntry (building : Building) : Reader Building := do
  let ((path, last), value) ← entry (value (maxDepth - 1))
  restOfLine
  return { building with current := ← building.current.addEntry path last value }

/-- Read a line. -/
def line (building : Building) : Reader Building := do
  blanks
  match ← next? with
  | none => return building
  | some '[' => header building
  | some '#' | some '\n' | some '\r' => do
      restOfLine
      return building
  | some _ => tableEntry building

/-- Read lines to the end of the text, at most `most` of them. -/
def lines (building : Building) : (most : Nat) → Reader Building
  | 0 => return building
  | most + 1 => do
      if (← get).isEmpty then return building
      lines (← line building) most

/-- The entries of a settings file, the last first. -/
def parse? (text : String) : Option (List (String × Toml)) := do
  let text := match text.toList with
    | '\uFEFF' :: rest => rest
    | text => text
  let building ← whole? (lines {} text.length) text
  let root ← building.close
  return root.entries

end ModelWeaver.Toml.Document
