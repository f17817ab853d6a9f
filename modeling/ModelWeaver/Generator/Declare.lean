import ModelWeaver.Context
import ModelWeaver.Generator.Invocation
import ModelWeaver.Model.Declaration
import ModelWeaver.Snippet.Operator

/-!
# Declaring commands

The commands that declare one symbol each: `SET`, `PARAM`, `VAR` and `CON`, and
`STMT`, which writes a statement as it is given.
-/

namespace ModelWeaver

open Model

/-- The commands that declare symbols. -/
inductive Declaring where
  | set
  | param
  | var
  | con
  | stmt
  deriving DecidableEq, Repr, Inhabited

namespace Declare

/-- Declare a set in the context, and write the declaration. -/
def addSet (symbol : SymbolName) (members : List Value) : Action Context Unit := do
  let text ← Context.onSymbols (declareSet symbol members)
  modify (·.emit .defs text)

/-- The name of the index set of a symbol that is given none. -/
def defaultIndex (symbol : SymbolName) : SymbolName := ⟨symbol.name ++ "_I", false⟩

/-! ## Sets -/

/-- `SET[name]{values}` -/
def runSet (invocation : Invocation) : Action Context Unit := do
  let symbol ← SymbolName.parse (← invocation.requireIndex "SET")
  let members ← invocation.arguments.reading "SET" ["values"] 1 do
    (← Bound.required "values").elements
  addSet symbol members

/-! ## Parameters -/

/-- The key of a leaf at an index path. -/
def pathKey : List Value → Value
  | [key] => key
  | path => .tuple path

/-- The leaves of nested lists with their keys, in order. A key is the path of indices to the
leaf, each counted from `start`; `path` leads to the list, and `index` to its first item. -/
def leaves (start : Int) (path : List Value) (index : Nat) : List Value → Except Failure Entries
  | [] => .ok []
  | item :: items => do
      let path' := path ++ [← Snippet.exactly (start + index)]
      let here ← match item with
        | .list inner => leaves start path' 0 inner
        | leaf => pure [(pathKey path', leaf)]
      return here ++ (← leaves start path (index + 1) items)

/-- The leaves of a list value as a dict. -/
def indexed (value : Value) (start : Int64) : Except Failure Value := do
  match value with
  | .list items => return .dict (← leaves start.toInt [] 0 items)
  | value => value.mismatch "list"

/-- The components at one position of all keys, which are tuples of `arity`
components; each is listed once. -/
def keyColumn (position arity : Nat) (entries : Entries) : Except Failure (List Value) :=
  entries.foldlM (fun column (key, _) => do
    let component ← component? key
    return if column.contains component then column else column ++ [component]) []
where
  component? (key : Value) : Except Failure Value :=
    let wrong := .error (.badArgument (.keyArity key.repr arity))
    match key with
    | .tuple parts =>
      if parts.length ≠ arity then wrong
      else match parts[position]? with
        | some component => .ok component
        | none => wrong
    | _ => wrong

/-- The value of a parameter: the leaves of a list under their keys, or the value
as it is. -/
def paramValue (symbol : SymbolName) (index : Option (List SymbolName)) (value : Value)
    (start : Option Value) : Except Failure Value := do
  match value with
  | .list _ =>
    if index.any fun sets => sets.length ≠ 1 then
      throw (.badArgument (.listParamIndex symbol.name))
    let start ← match start with
      | some start => start.toInteger
      | none => pure 0
    indexed value start
  | .dict _ =>
    if start.isSome then throw (.badArgument .startWithoutList)
    return value
  | scalar =>
    if start.isSome || index.isSome then
      throw (.badArgument (.scalarParamIndex symbol.name))
    return scalar

/-- Declare the index sets that the keys of a parameter range over. -/
def addIndexSets (index : List SymbolName) (entries : Entries) : Action Context Unit := do
  match index with
  | [set] => addSet set (entries.map Prod.fst)
  | sets =>
    sets.zipIdx.forM fun (set, position) => do
      addSet set (← keyColumn position sets.length entries)

/-- `PARAM[name{I,...}]{values, i0=None}` -/
def runParam (invocation : Invocation) : Action Context Unit := do
  let (symbol, index) ← SymbolName.parseIndexed '{' '}' (← invocation.requireIndex "PARAM")
  let (given, start) ← invocation.arguments.reading "PARAM" ["values", "i0"] 1 do
    let given ← Bound.required "values"
    return (given, ← Bound.take "i0")
  let value ← paramValue symbol index given start
  let indexText ← match value with
    | .dict entries => do
        let index := index.getD [defaultIndex symbol]
        addIndexSets index entries
        pure (some (",".intercalate (index.map SymbolName.name)))
    | _ => pure none
  let text ← Context.onSymbols (declareParam symbol indexText value)
  modify (·.emit .defs text.defs)
  modify (·.emit .data text.data)

/-! ## Variables, constraints and statements -/

/-- The index set of a variable, which may have at most one. -/
def singleIndex (symbol : SymbolName) :
    Option (List SymbolName) → Except Failure (Option SymbolName)
  | none => .ok none
  | some [set] => .ok (some set)
  | some _ => .error (.badArgument (.severalVarIndices symbol.name))

/-- The arguments of `VAR`. -/
structure VarArguments where
  type : String
  lower : Option Value
  upper : Option Value
  indexSet : Option Value

/-- Take the arguments of `VAR`. -/
def varArguments (args : Arguments) : Except Failure VarArguments :=
  args.reading "VAR" ["typ", "lb", "ub", "index_set"] 0 do
    let type ← match ← Bound.take "typ" with
      | some type => liftM type.toStr
      | none => pure ""
    let lower ← Bound.take "lb"
    let upper ← Bound.take "ub"
    let indexSet ← Bound.take "index_set"
    return { type, lower, upper, indexSet }

/-- `VAR[name{I}]{typ="", lb=None, ub=None, index_set=None}` -/
def runVar (invocation : Invocation) : Action Context Unit := do
  let (symbol, index) ← SymbolName.parseIndexed '{' '}' (← invocation.requireIndex "VAR")
  let given ← varArguments invocation.arguments
  let index ← singleIndex symbol index
  if let (some set, none) := (index, given.indexSet) then
    if !set.hidden then throw (.badArgument (.varIndexUndeclared symbol.name set.name))
  let index ← match given.indexSet with
    | some members => do
        let set := index.getD (defaultIndex symbol)
        addSet set (← members.elements)
        pure (some set)
    | none => pure index
  let text ← declareVariable symbol (index.map SymbolName.name) given.type given.lower given.upper
  modify (·.emit .model text)

/-- `CON[name]{left, sign, right}` -/
def runCon (invocation : Invocation) : Action Context Unit := do
  let symbol ← SymbolName.parse (← invocation.requireIndex "CON")
  let text ← invocation.arguments.reading "CON" ["left", "sign", "right"] 3 do
    let left ← Bound.required "left"
    let sign ← Bound.required "sign"
    let right ← Bound.required "right"
    declareConstraint symbol left (← sign.toStr) right
  modify (·.emit .model text)

/-- `STMT{text}` -/
def runStmt (invocation : Invocation) : Action Context Unit := do
  invocation.forbidIndex "STMT"
  let text ← invocation.arguments.reading "STMT" ["statement"] 1 do
    return (← Bound.required "statement").text
  modify (·.emit .model text)

end Declare

/-- Run a declaring command. -/
def Declaring.run : Declaring → Invocation → Action Context Unit
  | set => Declare.runSet
  | param => Declare.runParam
  | var => Declare.runVar
  | con => Declare.runCon
  | stmt => Declare.runStmt

end ModelWeaver
