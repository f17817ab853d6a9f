import ModelWeaver.Snippet.Expr
import ModelWeaver.Snippet.Lexer

/-!
# Parsing snippets

Operator precedence parsing of expressions, argument lists and statements.
Every sub-expression, and every bracketed loop target, is read one nesting level
deeper than what encloses it. The number of levels is limited, and the recursion
of the parser follows it: a parser for one level is built from the parser for
the next. Repetition inside one level is bounded by the number of tokens left.
-/

namespace ModelWeaver.Snippet

open Text

/-- The deepest nesting of sub-expressions that a snippet may use. -/
def maxNesting : Nat := 64

/-! ## The cursor -/

/-- The tokens still to be read. -/
structure Cursor where
  rest : List Lexeme
  /-- Where the last token that was read ends. -/
  lastStop : Nat
  stop : Nat

/-- A reader of tokens. -/
abbrev Parser := StateT Cursor (Except SyntaxError)

namespace Parser

/-- The token at the cursor. -/
def peek? : Parser (Option Token) :=
  return (← get).rest.head?.map Lexeme.token

/-- The next two tokens, as far as there are any. -/
def peekTwo : Parser (List Token) :=
  return ((← get).rest.take 2).map Lexeme.token

/-- Whether a given token stands at the cursor. -/
def sees (token : Token) : Parser Bool :=
  return (← peek?) == some token

/-- The bytes of the token at the cursor, or the end of the text. -/
def here : Parser Span := do
  let cursor ← get
  match cursor.rest with
  | lexeme :: _ => return lexeme.span
  | [] => return ⟨cursor.stop, cursor.stop⟩

/-- The bytes from `start` to the end of the last token that was read. -/
def spanFrom (start : Nat) : Parser Span :=
  return ⟨start, (← get).lastStop⟩

/-- Fail at the cursor. -/
def fail {α : Type} (cause : SyntaxError.Cause) : Parser α := do
  throw ⟨cause, ← here⟩

/-- Read the token at the cursor. -/
def next? : Parser (Option Lexeme) := do
  let cursor ← get
  match cursor.rest with
  | lexeme :: rest =>
    set { cursor with rest := rest, lastStop := lexeme.span.stop }
    return some lexeme
  | [] => return none

/-- Pass over the token at the cursor. -/
def skip : Parser Unit := do
  let _ ← next?

/-- Pass over a token that must stand at the cursor. -/
def expect (token : Token) (what : String) : Parser Unit := do
  if ← sees token then skip else fail (.expected what)

/-- Read an identifier. -/
def ident : Parser String := do
  match ← peek? with
  | some (.ident name) => skip; return name
  | _ => fail (.expected "identifier")

/-- Whether to go round a loop once more. -/
inductive Loop (α : Type) where
  | again (value : α)
  | done (value : α)

/-- Go round a loop at most once for each of some tokens, and once more. -/
def rounds {α : Type} (body : α → Parser (Loop α)) : List Lexeme → α → Parser α
  | [], value => do
      match ← body value with
      | .again value | .done value => return value
  | _ :: tokens, value => do
      match ← body value with
      | .again value => rounds body tokens value
      | .done value => return value

/-- Go round a loop whose every round but the last reads a token. -/
def loop {α : Type} (init : α) (body : α → Parser (Loop α)) : Parser α := do
  rounds body (← get).rest init

/-- A round that reads one more item after a comma. A comma may also stand
before the end of the list, which `ends` recognises by its token. -/
def itemAfterComma {α : Type} (ends : Option Token → Bool) (item : Parser α) (items : List α) :
    Parser (Loop (List α)) := do
  if !(← sees .comma) then return .done items
  skip
  if ends (← peek?) then return .done items
  return .again ((← item) :: items)

/-- The items of a list whose first item has been read. -/
def itemsFrom {α : Type} (ends : Option Token → Bool) (item : Parser α) (first : α) :
    Parser (List α) := do
  return (← loop [first] (itemAfterComma ends item)).reverse

/-- Whether a tuple without brackets must stop at a token. -/
def endsTuple : Option Token → Bool
  | none | some .newline | some .semicolon | some .eq | some .plusEq | some .minusEq
  | some .starEq | some .rParen | some .rBracket | some .rBrace | some .inWord => true
  | _ => false

/-! ## Binding powers

The tighter an operator binds, the higher its power. The operands of an operator
are read with the powers below as the least power that may still extend them.
-/

/-- The power of the choice `x if c else y`. -/
def choicePower : Nat := 2

/-- The power of `not`. -/
def notPower : Nat := 8

/-- The power of a sign. -/
def signPower : Nat := 16

/-- A binary operator as it is read: its tree node, its power, the power of its
right operand and the number of its tokens. -/
structure BinaryForm where
  op : BinaryOp
  power : Nat
  rightPower : Nat
  width : Nat := 1

/-- An operator whose operands group to the left. -/
def leftToRight (op : BinaryOp) (power : Nat) : BinaryForm :=
  { op, power, rightPower := power + 1 }

/-- The binary operator that the tokens start with. -/
def binaryForm? : List Token → Option BinaryForm
  | .orWord :: _ => some (leftToRight .logicalOr 4)
  | .andWord :: _ => some (leftToRight .logicalAnd 6)
  | .eqEq :: _ => some (leftToRight .equality 10)
  | .bangEq :: _ => some (leftToRight .inequality 10)
  | .gt :: _ => some (leftToRight .greaterThan 10)
  | .lt :: _ => some (leftToRight .lessThan 10)
  | .gtEq :: _ => some (leftToRight .greaterThanOrEqual 10)
  | .ltEq :: _ => some (leftToRight .lessThanOrEqual 10)
  | .inWord :: _ => some (leftToRight .membership 10)
  | .notWord :: .inWord :: _ => some { leftToRight .nonMembership 10 with width := 2 }
  | .plus :: _ => some (leftToRight .addition 12)
  | .minus :: _ => some (leftToRight .subtraction 12)
  | .star :: _ => some (leftToRight .multiplication 14)
  | .slash :: _ => some (leftToRight .division 14)
  | .slashSlash :: _ => some (leftToRight .floorDivision 14)
  | .percent :: _ => some (leftToRight .modulo 14)
  | .starStar :: _ => some { op := .power, power := 18, rightPower := 17 }
  | _ => none

/-! ## Loop targets -/

/-- Targets in brackets, which `inner` reads. -/
def bracketedTarget (inner : Parser Target) (close : Token) (what : String) :
    Parser Target := do
  skip
  let target ← inner
  expect close what
  return target

/-- A name or a list of targets in brackets. -/
def targetAtom (inner : Parser Target) : Parser Target := do
  match ← peek? with
  | some (.ident name) => skip; return .name name
  | some .lParen => bracketedTarget inner .rParen "')'"
  | some .lBracket => bracketedTarget inner .rBracket "']'"
  | _ => fail (.expected "loop variable")

/-- A list of loop targets, one of them standing for itself and several for a
tuple. `inner` reads a list in brackets. -/
def targetList (inner : Parser Target) : Parser Target := do
  let first ← targetAtom inner
  if !(← sees .comma) then return first
  return .tuple (← itemsFrom endsTuple (targetAtom inner) first)

/-- A list of loop targets when `levels` more levels of nesting are allowed. -/
def targets : (levels : Nat) → Parser Target
  | 0 => targetList (fail (.nestedTooDeep maxNesting))
  | levels + 1 => targetList (targets levels)

/-! ## Expressions of one level

`sub power` reads a sub-expression one level deeper, and `targets` the targets of
a loop.
-/

section Level

variable (sub : Nat → Parser Expr) (targets : Parser Target)

/-- A round that reads one more loop of a comprehension. -/
def clauseRound (clauses : List Clause) : Parser (Loop (List Clause)) := do
  if !(← sees .forWord) then return .done clauses
  skip
  let target ← targets
  expect .inWord "'in' in comprehension"
  let iterable ← sub (choicePower + 1)
  if ← sees .ifWord then
    skip
    let condition ← sub (choicePower + 1)
    return .again (.mk target iterable (some condition) :: clauses)
  else
    return .again (.mk target iterable none :: clauses)

/-- The loops of a comprehension. -/
def clauses : Parser (List Clause) := do
  return (← loop [] (clauseRound sub targets)).reverse

/-- The items of a list whose first item has been read, up to and including the
closing bracket. -/
def sequenceTail (first : Expr) (close : Token) (what : String) : Parser (List Expr) := do
  let items ← itemsFrom (· == some close) (sub 0) first
  expect close what
  return items

/-- A key and its value. -/
def entry : Parser (Expr × Expr) := do
  let key ← sub 0
  expect .colon "':' in dict display"
  let value ← sub 0
  return (key, value)

/-- An expression, or a tuple without brackets. -/
def tupleOrExpr : Parser Expr := do
  let first ← sub 0
  if !(← sees .comma) then return first
  return .tuple (← itemsFrom endsTuple (sub 0) first)

/-- What follows an opening parenthesis: a tuple, a comprehension or an
expression in parentheses. -/
def parenthesised : Parser Expr := do
  if ← sees .rParen then
    skip
    return .tuple []
  let first ← sub 0
  if ← sees .forWord then
    let clauses ← clauses sub targets
    expect .rParen "')'"
    return .listComp first clauses
  if ← sees .comma then
    return .tuple (← sequenceTail sub first .rParen "')'")
  expect .rParen "')'"
  return first

/-- What follows an opening square bracket: a list or a comprehension. -/
def listDisplay : Parser Expr := do
  if ← sees .rBracket then
    skip
    return .list []
  let first ← sub 0
  if ← sees .forWord then
    let clauses ← clauses sub targets
    expect .rBracket "']'"
    return .listComp first clauses
  return .list (← sequenceTail sub first .rBracket "']'")

/-- What follows an opening brace: a dict or a comprehension. -/
def dictDisplay : Parser Expr := do
  if ← sees .rBrace then
    skip
    return .dict []
  let first ← entry sub
  if ← sees .forWord then
    let clauses ← clauses sub targets
    expect .rBrace "'\x7d'"
    return .dictComp first.1 first.2 clauses
  let entries ← itemsFrom (· == some .rBrace) (entry sub) first
  expect .rBrace "'\x7d'"
  return .dict entries

/-- A round that adds one more string literal. -/
def stringRound (text : String) : Parser (Loop String) := do
  match ← peek? with
  | some (.string more) => skip; return .again (text ++ more)
  | _ => return .done text

/-- A string literal together with those that follow it directly. -/
def adjacentStrings (first : String) : Parser Expr := do
  return .str (← loop first stringRound)

/-- A literal, a name or a bracketed expression. -/
def atom : Parser Expr := do
  match ← next? with
  | none => fail .unexpectedEnd
  | some ⟨token, span⟩ =>
    match token with
    | .integer value => return .int value
    | .float value => return .float value
    | .string text => adjacentStrings text
    | .trueWord => return .bool true
    | .falseWord => return .bool false
    | .noneWord => return .none
    | .ident name => return .var name span
    | .lParen => parenthesised sub targets
    | .lBracket => listDisplay sub targets
    | .lBrace => dictDisplay sub targets
    | token => throw ⟨.unexpectedToken token, span⟩

/-- An argument, and whether a keyword argument has been read so far. -/
def argument (named : Bool) : Parser (Argument × Bool) := do
  match ← peekTwo with
  | .ident name :: .eq :: _ =>
    skip
    skip
    return (.keyword name (← sub 0), true)
  | _ =>
    if named then fail .positionalAfterKeyword
    let value ← sub 0
    if ← sees .forWord then
      return (.positional (.listComp value (← clauses sub targets)), named)
    else
      return (.positional value, named)

/-- A round that reads one more argument. -/
def argumentRound (close : Option Token) (read : List Argument × Bool) :
    Parser (Loop (List Argument × Bool)) := do
  if (← peek?) == close then
    if close.isSome then skip
    return .done read
  let (argument, named) ← argument sub targets read.2
  let read := (argument :: read.1, named)
  if ← sees .comma then
    skip
    return .again read
  match close with
  | some close => expect close "',' or ')' in argument list"
  | none => if (← peek?).isSome then fail (.expected "',' between arguments")
  return .done read

/-- Arguments up to `close`, which is read too, or up to the end of the text. -/
def argumentList (close : Option Token) : Parser (List Argument) := do
  return (← loop ([], false) (argumentRound sub targets close)).1.reverse

/-- A round that reads one more call, subscript or attribute. -/
def trailerRound (value : Expr) : Parser (Loop Expr) := do
  let start := (← here).start
  match ← peek? with
  | some .lParen =>
    skip
    let args ← argumentList sub targets (some .rParen)
    return .again (.call value args (← spanFrom start))
  | some .lBracket =>
    skip
    let index ← tupleOrExpr sub
    expect .rBracket "']'"
    return .again (.subscript value index (← spanFrom start))
  | some .dot =>
    skip
    let name ← ident
    return .again (.member value name (← spanFrom start))
  | _ => return .done value

/-- Calls, subscripts and attributes behind an expression. -/
def trailers (value : Expr) : Parser Expr :=
  loop value (trailerRound sub targets)

/-- The operand of a unary operator, after the operator. -/
def unaryOperand (op : UnaryOp) (power : Nat) : Parser Expr := do
  skip
  return .unary op (← sub power)

/-- An operand with the unary operators in front of it. -/
def operand : Parser Expr := do
  match ← peek? with
  | some .minus => unaryOperand sub .negation signPower
  | some .plus => unaryOperand sub .identity signPower
  | some .notWord => unaryOperand sub .logicalNot notPower
  | _ => trailers sub targets (← atom sub targets)

/-- A round that extends an expression by an operator of at least the given
power and what stands to the right of it. -/
def operatorRound (least : Nat) (left : Expr) : Parser (Loop Expr) := do
  let tokens ← peekTwo
  if tokens.head? == some .ifWord then
    if choicePower < least then return .done left
    skip
    let condition ← sub (choicePower + 1)
    expect .elseWord "'else' in conditional expression"
    let no ← sub choicePower
    return .again (.cond condition left no)
  match binaryForm? tokens with
  | none => return .done left
  | some operator =>
    if operator.power < least then return .done left
    skip
    if operator.width = 2 then skip
    let right ← sub operator.rightPower
    return .again (.binary operator.op left right)

/-- An expression that extends as far as operators of at least the given power
reach. -/
def expression (least : Nat) : Parser Expr := do
  loop (← operand sub targets) (operatorRound sub least)

end Level

/-! ## Whole snippets -/

/-- Read an expression when `levels` more levels of nesting are allowed. -/
def expr : (levels : Nat) → (least : Nat) → Parser Expr
  | 0, _ => fail (.nestedTooDeep maxNesting)
  | levels + 1, least => expression (expr levels) (targets levels) least

/-- What an expression on the left of an assignment binds. -/
def targetOf? : Expr → Option Target
  | .var name _ => some (.name name)
  | .tuple items | .list items => (targetsOf? items).map .tuple
  | _ => none
where
  targetsOf? : List Expr → Option (List Target)
    | [] => some []
    | item :: items => do return (← targetOf? item) :: (← targetsOf? items)

/-- The assignment operator that a token stands for. -/
def assignOp? : Token → Option AssignOp
  | .eq => some .assign
  | .plusEq => some .add
  | .minusEq => some .subtract
  | .starEq => some .multiply
  | _ => none

/-- A statement. -/
def statement : Parser Statement := do
  let start := (← here).start
  let left ← tupleOrExpr (expr maxNesting)
  match (← peek?).bind assignOp? with
  | none => return .expr left (← spanFrom start)
  | some op =>
    skip
    match targetOf? left with
    | none => fail .notAssignable
    | some target =>
      match op, target with
      | .assign, _ | _, .name _ =>
        let value ← tupleOrExpr (expr maxNesting)
        return .assign target op value (← spanFrom start)
      | _, .tuple _ => fail .severalUpdated

/-- Whether a separator of statements stands at the cursor. -/
def seesSeparator : Parser Bool :=
  return (← peek?).any Lexer.isSeparator

/-- Statements up to the end of the text. -/
def statements : Parser (List Statement) := do
  let statements ← loop [] fun statements => do
    if ← seesSeparator then
      skip
      return .again statements
    if (← peek?).isNone then return .done statements
    let statement ← statement
    if !((← peek?).isNone || (← seesSeparator)) then fail (.trailing "statement")
    return .again (statement :: statements)
  return statements.reverse

/-- Run a parser on all tokens of a text; `what` names the item it reads. -/
def run {α : Type} (parser : Parser α) (what : String) (inStatements : Bool)
    (base : Nat) (source : String) : Except SyntaxError α := do
  let tokens ← lexemes inStatements base source
  let complete : Parser α := do
    let item ← parser
    if (← peek?).isSome then fail (.trailing what)
    return item
  complete.run' ⟨tokens, base, base + source.utf8ByteSize⟩

end Parser

/-- Read the expression that a text consists of. Its first byte has offset
`base` in the document. -/
def parseExpression (base : Nat) (source : String) : Except SyntaxError Expr :=
  (Parser.tupleOrExpr (Parser.expr maxNesting)).run "expression" false base source

/-- Read the arguments that a text consists of. -/
def parseArguments (base : Nat) (source : String) : Except SyntaxError (List Argument) :=
  (Parser.argumentList (Parser.expr maxNesting) (Parser.targets maxNesting) none).run
    "arguments" false base source

/-- Read the statements that a text consists of. -/
def parseStatements (base : Nat) (source : String) : Except SyntaxError (List Statement) :=
  Parser.statements.run "statement" true base source

end ModelWeaver.Snippet
