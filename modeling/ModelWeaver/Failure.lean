import ModelWeaver.SyntaxError

/-!
# Failures

What can go wrong while a snippet or a command runs. A `Failure` names its cause;
the wording of every cause is given here and nowhere else.

A panic is a failure of its own kind. It ends the whole program where it happens:
nothing reports it as the failure of a construct, and nothing goes on after it.
-/

namespace ModelWeaver

/-- The longest list, range or string that an expression may build. -/
def maxSequenceLength : Nat := 10000000

/-- How far a submodel command has got within the current document. -/
inductive SubmodelState where
  | unconstructed
  /-- Called, with the document still being expanded. -/
  | constructed
  /-- The document is complete, and solutions may be decoded. -/
  | queryable
  deriving DecidableEq, Repr, Inhabited

/-- The wording of a state. -/
def SubmodelState.message : SubmodelState → String
  | unconstructed => "not constructed"
  | constructed => "expansion in progress"
  | queryable => "queryable"

namespace Failure

/-- A construct that is written in a wrong way. -/
inductive Malformed where
  /-- The text of a construct cannot be read. -/
  | unreadable (cause : SyntaxError.Cause)
  /-- An operator that decides by itself which operands to evaluate was applied to
  values. -/
  | lazyOperator
  | keywordRepeated (name : String)
  | positionalAfterKeyword
  | severalUpdated
  | indexRequired (command : String)
  | indexForbidden (command : String)
  | reservedCommand (name : String)
  deriving DecidableEq

/-- The wording of a malformed construct. -/
def Malformed.message : Malformed → String
  | unreadable cause => cause.message
  | lazyOperator => "logical operators are evaluated lazily"
  | keywordRepeated name => s!"keyword argument repeated: {name}"
  | positionalAfterKeyword => "positional argument follows keyword argument"
  | severalUpdated => "augmented assignment needs a single name"
  | indexRequired command => s!"${command} requires an [index] argument"
  | indexForbidden command => s!"${command} does not take an [index] argument"
  | reservedCommand name => s!"{name} is a reserved command name"

/-- An argument that a function, an operator or a command cannot use. -/
inductive BadArgument where
  -- Calls
  | unexpectedKeyword (callee name : String)
  | tooMany (callee : String) (most given : Nat)
  | repeated (callee name : String)
  | missing (callee name : String)
  -- Values and sequences
  | orderOfNaN
  | repetitionTooLong
  | rangeTooLong
  | rangeArity (given : Nat)
  | rangeStepZero
  | emptyExtremum (callee : String)
  | dictPairLength
  | dictArity (given : Nat)
  | intLiteral (text : String)
  | floatLiteral (text : String)
  | notInList (item : String)
  | readOnly (name : String)
  | unpack (values names : Nat)
  -- Formatting
  | formatSpec (text : String)
  | formatCode (code : Char)
  | singleCloseBrace
  | singleOpenBrace
  | notEnoughValues
  | unusedValues
  | unsupportedConversion (template : String)
  -- Declarations
  | constraintSign (sign : String)
  | noVariable
  | paramIndexMissing (name : String)
  | listParamIndex (name : String)
  | startWithoutList
  | scalarParamIndex (name : String)
  | keyArity (key : String) (arity : Nat)
  | severalVarIndices (name : String)
  | varIndexUndeclared (name index : String)
  -- Generators
  | sos2TooFew
  | pwlVariables (given : Nat)
  | pwlPoint
  | pwlTooFew
  | tourTooSmall
  | nodeUnknown (node : String)
  | arcShape
  | nodeUnconnected (node : String)
  | flowVariable
  | flowLengths
  | flowWeights (item weights capacities : Nat)
  | flowWeightless (item : Nat)
  | flowTooLarge (item : Nat)
  deriving DecidableEq

/-- The wording of a bad argument. -/
def BadArgument.message : BadArgument → String
  | unexpectedKeyword callee name => s!"{callee}() got an unexpected keyword argument '{name}'"
  | tooMany callee most given => s!"{callee}() takes at most {most} arguments ({given} given)"
  | repeated callee name => s!"{callee}() got multiple values for argument '{name}'"
  | missing callee name => s!"{callee}() missing required argument '{name}'"
  | orderOfNaN => "cannot order NaN"
  | repetitionTooLong => s!"repetition of more than {maxSequenceLength} elements"
  | rangeTooLong => s!"range of more than {maxSequenceLength} elements"
  | rangeArity given => s!"range expected 1 to 3 arguments, got {given}"
  | rangeStepZero => "range() arg 3 must not be zero"
  | emptyExtremum callee => s!"{callee}() arg is an empty sequence"
  | dictPairLength => "dictionary update sequence element has wrong length"
  | dictArity given => s!"dict expected at most 1 argument, got {given}"
  | intLiteral text => s!"invalid literal for int(): '{text}'"
  | floatLiteral text => s!"could not convert string to float: '{text}'"
  | notInList item => s!"{item} is not in list"
  | readOnly name => s!"{name} is read-only"
  | unpack values names => s!"cannot unpack {values} values into {names} names"
  | formatSpec text => s!"invalid format specifier '{text}'"
  | formatCode code => s!"unknown format code '{code}'"
  | singleCloseBrace => "single '\x7d' encountered in format string"
  | singleOpenBrace => "single '\x7b' encountered in format string"
  | notEnoughValues => "not enough arguments for format string"
  | unusedValues => "not all arguments converted during string formatting"
  | unsupportedConversion template => s!"unsupported format character in '{template}'"
  | constraintSign sign => s!"invalid constraint sign '{sign}'"
  | noVariable => "constraint needs at least one variable"
  | paramIndexMissing name => s!"indexed parameter '{name}' needs an index set"
  | listParamIndex name => s!"parameter '{name}' built from a list takes exactly one index set"
  | startWithoutList => "i0 only applies to list values"
  | scalarParamIndex name => s!"scalar parameter '{name}' takes neither an index nor i0"
  | keyArity key arity => s!"key {key} does not match {arity} index sets"
  | severalVarIndices name => s!"variable '{name}' takes a single index set"
  | varIndexUndeclared name index =>
    s!"variable '{name}' is indexed over '{index}' but no index_set was given"
  | sos2TooFew => "SOS2 needs at least two variables"
  | pwlVariables given => s!"PWL expects two variables, got {given}"
  | pwlPoint => "PWL points must be (x, y) pairs"
  | pwlTooFew => "PWL needs at least two points"
  | tourTooSmall => "a tour needs at least two nodes"
  | nodeUnknown node => s!"node {node} is not in V"
  | arcShape => "arcs must be (u, v) pairs"
  | nodeUnconnected node => s!"node {node} needs both an incoming and an outgoing arc"
  | flowVariable => "VBP_FLOW takes a single variable name"
  | flowLengths => "w, b, bounds and labels must have one entry per item"
  | flowWeights item weights capacities =>
    s!"item {item} has {weights} weights for {capacities} capacities"
  | flowWeightless item => s!"item {item} has no positive weight"
  | flowTooLarge item => s!"item {item} does not fit in the bin"

/-- A position that a sequence does not have. -/
inductive OutOfRange where
  | position (index : Int64) (length : Nat)
  /-- A field of a format template that no value belongs to. -/
  | replacementField (field : String)
  deriving DecidableEq

/-- The wording of a position out of range. -/
def OutOfRange.message : OutOfRange → String
  | position index length => s!"{index.toInt} (length {length})"
  | replacementField field => s!"replacement field '\x7b{field}\x7d'"

/-- An operation on 64-bit integers that is carried out without a check. -/
inductive Panic where
  | addition
  | multiplication
  | division
  deriving DecidableEq, Repr, Inhabited

/-- The reason that is given when the result of an operation does not fit. -/
def Panic.message : Panic → String
  | addition => "attempt to add with overflow"
  | multiplication => "attempt to multiply with overflow"
  | division => "attempt to divide with overflow"

end Failure

/-- Why a snippet or a command failed. -/
inductive Failure where
  | malformed (cause : Failure.Malformed)
  | invalidName (text : String)
  | unknownCommand (name : String)
  /-- A name was declared again with another value; both are given as text. -/
  | declarationConflict (name existing new : String)
  | typeMismatch (expected got : String)
  | badArgument (cause : Failure.BadArgument)
  | undefinedVariable (name : String)
  | noAttribute (typeName member : String)
  | outOfRange (cause : Failure.OutOfRange)
  /-- A dict has no such key; the key is given as text. -/
  | missingKey (key : String)
  | divisionByZero
  | overflow
  /-- An expression is nested deeper than the evaluator follows. -/
  | stackOverflow
  | unknownSubmodel (name : String)
  | submodelNotReady (name : String) (state : SubmodelState)
  | fileAccess
  /-- The program stops, since a result does not fit. -/
  | panic (operation : Failure.Panic)
  deriving DecidableEq

namespace Failure

/-- The wording of a failure. -/
def message : Failure → String
  | malformed cause => s!"syntax error: {cause.message}"
  | invalidName text => s!"invalid symbol name '{text}'"
  | unknownCommand name => s!"unknown command '{name}'"
  | declarationConflict name existing new =>
    s!"conflicting declarations of '{name}': {existing} != {new}"
  | typeMismatch expected got => s!"type error: expected {expected}, got {got}"
  | badArgument cause => cause.message
  | undefinedVariable name => s!"undefined variable: {name}"
  | noAttribute typeName member => s!"'{typeName}' object has no attribute '{member}'"
  | outOfRange cause => s!"index out of range: {cause.message}"
  | missingKey key => s!"key error: {key}"
  | divisionByZero => "division by zero"
  | overflow => "arithmetic overflow"
  | stackOverflow => "stack overflow"
  | unknownSubmodel name => s!"unknown submodel '{name}'"
  | submodelNotReady name state => s!"submodel '{name}' is not ready ({state.message})"
  | fileAccess => "I/O error"
  | panic operation => operation.message

/-- The result of an operation that is carried out without a check. -/
def orPanic {α : Type} (operation : Panic) : Option α → Except Failure α
  | some value => .ok value
  | none => .error (.panic operation)

end Failure

end ModelWeaver
