import ModelWeaver.Registry
import ModelWeaver.Snippet.Function
import ModelWeaver.Snippet.Method

/-!
# Evaluation of snippets

Expressions are evaluated in a session: they read variables, buffers and declared
symbols, and may call commands, which write into the buffers. Loop variables of a
comprehension live in a scope that is closed when it ends, also if it fails. What
was done before a failure stays done.
-/

namespace ModelWeaver.Snippet

/-- Expressions are followed to this depth. -/
def maxDepth : Nat := 256

/-- A computation in a session. -/
abbrev Evaluating := Action Session

/-! ## Names -/

/-- The value of a name: a buffer or the declared symbols, a variable, a command, or
a function. -/
def lookup? (session : Session) (name : String) : Option Value :=
  session.context.view? name <|> session.context.environment.get? name <|>
    (if session.registry.commands.contains name then some (.command name none) else none) <|>
    (Builtin.ofName? name).map .builtin

/-- The value of a name, which must have one. -/
def lookup (name : String) : Evaluating Value := do
  match lookup? (← get) name with
  | some value => return value
  | none => throw (.undefinedVariable name)

/-- Change the variables. -/
def modifyEnvironment (change : Environment → Environment) : Evaluating Unit :=
  modify fun session =>
    { session with context :=
        { session.context with environment := change session.context.environment } }

/-- Give a name a value. Buffers hold texts only. -/
def bindName (name : String) (value : Value) : Evaluating Unit := do
  if Context.isReadOnly name then throw (.badArgument (.readOnly name))
  match Buffer.ofName? name with
  | some buffer =>
    let text ← value.toStr
    modify fun session =>
      { session with context :=
          { session.context with buffers := session.context.buffers.set buffer text } }
  | none => modifyEnvironment (·.set name value)

mutual

/-- Bind a value to a target. For several targets it must have as many elements. -/
def bindTarget : Target → Value → Evaluating Unit
  | .name name, value => bindName name value
  | .tuple targets, value => do
      let items ← value.elements
      if items.length ≠ targets.length then
        throw (.badArgument (.unpack items.length targets.length))
      bindTargets targets items
termination_by structural target => target

/-- Bind values to targets, one by one. -/
def bindTargets : List Target → List Value → Evaluating Unit
  | target :: targets, item :: items => do
      bindTarget target item
      bindTargets targets items
  | _, _ => return ()
termination_by structural targets => targets

end

/-- Run an action in a scope of its own, which is closed after it in any case. -/
def inScope {α : Type} (action : Evaluating α) : Evaluating α := fun session =>
  match (modifyEnvironment Environment.push *> action) session with
  | .ok value session => (modifyEnvironment Environment.pop *> pure value) session
  | .error failure session => (modifyEnvironment Environment.pop *> throw failure) session

/-! ## Calls and subscripts -/

/-- Call a value. -/
def callValue (callee : Value) (args : Arguments) : Evaluating Value := do
  match callee with
  | .builtin .print =>
    let line := Function.printed args
    modify fun session => { session with printed := line :: session.printed }
    return .none
  | .builtin function => Function.call function args
  | .method receiver name => Method.call receiver name args
  | .command name index =>
    Session.invoke name index args
    return .none
  | other => other.mismatch "callable"

/-- The position that an index stands for in a sequence; negative ones count from
the end. -/
def position (length : Nat) (index : Value) : Except Failure Nat := do
  let i ← index.toInteger
  let resolved := if i < 0 then i.toInt + length else i.toInt
  if resolved < 0 || length ≤ resolved then throw (.outOfRange (.position i length))
  return resolved.toNat

/-- The element of a value at an index, or a command with an index. -/
def subscript (value index : Value) : Except Failure Value := do
  match value with
  | .list items | .tuple items =>
    return items.getD (← position items.length index) .none
  | .str text =>
    let cs := text.toList
    return .str (String.ofList (cs[← position cs.length index]?).toList)
  | .dict entries =>
    match Value.lookup? entries index with
    | some value => return value
    | none => throw (.missingKey index.repr)
  | .command name none =>
    match index with
    | .str text => return .command name (some text)
    | other => other.mismatch "str index"
  | other => other.mismatch "subscriptable value"

/-- The method of a value with a given name. -/
def memberOf (receiver : Value) (name : String) : Except Failure Value :=
  if (Method.names receiver).contains name then .ok (.method receiver name)
  else .error (.noAttribute receiver.typeName name)

/-- Whether an operator gives its left operand without a look at the right one. -/
def decidedBy (op : BinaryOp) (left : Value) : Bool :=
  match op with
  | .logicalAnd => !left.isTruthy
  | .logicalOr => left.isTruthy
  | _ => false

/-- Apply an operator to two evaluated operands. Logical ones give the right
operand. -/
def applyEvaluated (op : BinaryOp) (left right : Value) : Except Failure Value :=
  match op with
  | .logicalAnd | .logicalOr => .ok right
  | op => applyBinary op left right

/-- Refuse an argument that may not follow those evaluated already: arguments
without a name come first, and no name comes twice. -/
def checkArgument (args : Arguments) : Argument → Except Failure Unit
  | .positional _ =>
    if args.keyword.isEmpty then .ok () else .error (.malformed .positionalAfterKeyword)
  | .keyword name _ =>
    if args.keyword.any fun entry => entry.1 = name then
      .error (.malformed (.keywordRepeated name))
    else .ok ()

/-! ## Expressions -/

/-- What the rounds of a comprehension have given so far: the items of a list, the
last first, or the entries of a dict. -/
structure Collected where
  items : List Value := []
  entries : Entries := []
  deriving Inhabited

/-- Add an item of a list. -/
def Collected.addItem (collected : Collected) (item : Value) : Collected :=
  { collected with items := item :: collected.items }

/-- Add an entry of a dict. -/
def Collected.addEntry (collected : Collected) (key value : Value) : Collected :=
  { collected with entries := Value.insertEntry collected.entries key value }

mutual

/-- Evaluate an expression that stands `depth` levels deep. -/
def eval (depth : Nat) (expr : Expr) : Evaluating Value := do
  if maxDepth < depth then throw .stackOverflow
  match expr with
  | .int value => return .int value
  | .float value => return .float value
  | .str text => return .str text
  | .bool value => return .bool value
  | .none => return .none
  | .var name _ => lookup name
  | .list items => return .list (← evalAll (depth + 1) items)
  | .tuple items => return .tuple (← evalAll (depth + 1) items)
  | .dict entries => return .dict (← evalEntries (depth + 1) [] entries)
  | .listComp element clauses =>
    let collected ← inScope (collect (depth + 1) clauses (fun collected => do
      return collected.addItem (← eval (depth + 1) element)) {})
    return .list collected.items.reverse
  | .dictComp key value clauses =>
    let collected ← inScope (collect (depth + 1) clauses (fun collected => do
      let key ← eval (depth + 1) key
      return collected.addEntry key (← eval (depth + 1) value)) {})
    return .dict collected.entries
  | .unary op operand => applyUnary op (← eval (depth + 1) operand)
  | .binary op left right =>
    let left ← eval (depth + 1) left
    if decidedBy op left then return left
    applyEvaluated op left (← eval (depth + 1) right)
  | .cond condition yes no =>
    if (← eval (depth + 1) condition).isTruthy then eval (depth + 1) yes
    else eval (depth + 1) no
  | .call callee args _ =>
    let callee ← eval (depth + 1) callee
    callValue callee (← evalArguments (depth + 1) {} args)
  | .subscript value index _ =>
    let value ← eval (depth + 1) value
    subscript value (← eval (depth + 1) index)
  | .member value name _ => memberOf (← eval (depth + 1) value) name
termination_by structural expr

/-- Evaluate expressions in order. -/
def evalAll (depth : Nat) : List Expr → Evaluating (List Value)
  | [] => return []
  | item :: items => return (← eval depth item) :: (← evalAll depth items)
termination_by structural items => items

/-- Evaluate the entries of a dict, and add them to `entries`. -/
def evalEntries (depth : Nat) (entries : Entries) : List (Expr × Expr) → Evaluating Entries
  | [] => return entries
  | (key, value) :: rest => do
      let key ← eval depth key
      let value ← eval depth value
      evalEntries depth (Value.insertEntry entries key value) rest
termination_by structural rest => rest

/-- Evaluate arguments, and add them to `arguments`. -/
def evalArguments (depth : Nat) (args : Arguments) : List Argument → Evaluating Arguments
  | [] => return args
  | argument :: rest => do
      checkArgument args argument
      match argument with
      | .positional value =>
        let value ← eval depth value
        evalArguments depth
          { args with positional := args.positional ++ [value] } rest
      | .keyword name value =>
        let value ← eval depth value
        evalArguments depth
          { args with keyword := args.keyword ++ [(name, value)] } rest
termination_by structural rest => rest

/-- Take a step for every round of the loops of a comprehension. -/
def collect (depth : Nat) (clauses : List Clause) (step : Collected → Evaluating Collected)
    (collected : Collected) : Evaluating Collected := do
  match clauses with
  | [] => step collected
  | .mk target iterable condition :: rest =>
    let items ← (← eval depth iterable).elements
    items.foldlM (fun collected item => do
      bindTarget target item
      if ← holds depth condition then collect depth rest step collected
      else return collected) collected
termination_by structural clauses

/-- Whether the filter of a loop lets a round through. -/
def holds (depth : Nat) : Option Expr → Evaluating Bool
  | none => return true
  | some condition => return (← eval depth condition).isTruthy
termination_by structural condition => condition

end

/-- Evaluate an expression. -/
def evaluate (expr : Expr) : Evaluating Value := eval 0 expr

/-- Evaluate the arguments of a call. -/
def evaluateArguments (args : List Argument) : Evaluating Arguments :=
  evalArguments 0 {} args

/-! ## Statements -/

/-- The operator of an assignment that updates its target. -/
def AssignOp.binary? : AssignOp → Option BinaryOp
  | assign => none
  | add => some .addition
  | subtract => some .subtraction
  | multiply => some .multiplication

/-- Assign a value to a target, or update it by the value. -/
def assign (target : Target) (op : AssignOp) (value : Value) : Evaluating Unit := do
  match op.binary?, target with
  | none, target => bindTarget target value
  | some op, .name name =>
    let updated ← applyBinary op (← lookup name) value
    bindName name updated
  | some _, .tuple _ => throw (.malformed .severalUpdated)

/-- Execute a statement. -/
def executeStatement : Statement → Evaluating Unit
  | .assign target op value _ => do assign target op (← evaluate value)
  | .expr value _ => discard (evaluate value)

/-- Execute statements in order. -/
def execute (statements : List Statement) : Evaluating Unit :=
  statements.forM executeStatement

end ModelWeaver.Snippet
