/-!
# Arguments of the command line

Options are written `--name`, `--name=value`, `--name value`, `-n`, `-nvalue` or
`-n value`. After `--` everything is taken as it stands. An option is given once,
unless it may be repeated.
-/

namespace ModelWeaver.CommandLine

/-- An option. -/
structure OptionSpec where
  /-- The name under which it is kept. -/
  id : String
  /-- The name after two dashes. -/
  long : Option String := none
  /-- The letter after one dash. -/
  short : Option Char := none
  takesValue : Bool := false
  repeatable : Bool := false
  /-- Whether the value may be empty; paths may not. -/
  allowsEmpty : Bool := true
  deriving DecidableEq, Repr, Inhabited

/-- What a command takes: its options, and how many other arguments. -/
structure Signature where
  options : List OptionSpec
  operands : Nat
  allowsEmpty : Bool := true
  hasVersion : Bool := false
  /-- Whether reading ends before the first operand. -/
  stopsAtOperand : Bool := false
  deriving Inhabited

/-- Why arguments are not carried out. -/
inductive Refusal where
  | usage
  | help
  | version
  deriving DecidableEq, Repr, Inhabited

/-- Arguments that were read. -/
structure Parsed where
  operands : List String := []
  /-- The values of options in the order in which they were given; without one it is
  empty. -/
  values : List (String × String) := []
  rest : List String := []
  deriving DecidableEq, Repr, Inhabited

namespace Parsed

/-- Whether an option was given. -/
def has (parsed : Parsed) (id : String) : Bool := parsed.values.any fun entry => entry.1 = id

/-- The value of an option. -/
def get? (parsed : Parsed) (id : String) : Option String := parsed.values.lookup id

/-- All values of an option. -/
def getAll (parsed : Parsed) (id : String) : List String :=
  (parsed.values.filter fun entry => entry.1 = id).map Prod.snd

/-- Add an option with its value. -/
def add (parsed : Parsed) (spec : OptionSpec) (value : String) : Except Refusal Parsed :=
  if (parsed.has spec.id && !spec.repeatable) ||
      (spec.takesValue && value.isEmpty && !spec.allowsEmpty) then .error .usage
  else .ok { parsed with values := parsed.values ++ [(spec.id, value)] }

end Parsed

/-- Whether an argument is read as an option. -/
def isOption (argument : String) : Bool :=
  argument.startsWith "-" && argument ≠ "-"

/-- Read the letters after one dash. The result also says which option still needs the
next argument as its value. -/
def readLetters (signature : Signature) (parsed : Parsed) :
    List Char → Except Refusal (Parsed × Option OptionSpec)
  | [] => .ok (parsed, none)
  | letter :: letters =>
    match signature.options.find? fun spec => spec.short = some letter with
    | some spec =>
      if spec.takesValue then
        match letters with
        | [] => .ok (parsed, some spec)
        | '=' :: value => return (← parsed.add spec (String.ofList value), none)
        | value => return (← parsed.add spec (String.ofList value), none)
      else do readLetters signature (← parsed.add spec "") letters
    | none =>
      if letter = 'h' then .error .help
      else if letter = 'V' && signature.hasVersion then .error .version
      else .error .usage

/-- Read the name after two dashes, perhaps with a value behind an equals sign. -/
def readName (signature : Signature) (parsed : Parsed) (text : List Char) :
    Except Refusal (Parsed × Option OptionSpec) := do
  let name := String.ofList (text.takeWhile (· ≠ '='))
  let value := match text.dropWhile (· ≠ '=') with
    | [] => none
    | _ :: value => some (String.ofList value)
  match signature.options.find? fun spec => spec.long = some name with
  | some spec =>
    match spec.takesValue, value with
    | true, some value => return (← parsed.add spec value, none)
    | true, none => return (parsed, some spec)
    | false, some _ => throw .usage
    | false, none => return (← parsed.add spec "", none)
  | none =>
    if value.isSome then throw .usage
    else if name = "help" then throw .help
    else if name = "version" && signature.hasVersion then throw .version
    else throw .usage

/-- Add operands. -/
def addOperands (signature : Signature) (parsed : Parsed) (operands : List String) :
    Except Refusal Parsed :=
  let operands := parsed.operands ++ operands
  if signature.operands < operands.length ||
      (!signature.allowsEmpty && operands.any String.isEmpty) then .error .usage
  else .ok { parsed with operands }

/-- Read arguments; `pending` is an option that needs the next one as its value. -/
def readFrom (signature : Signature) (parsed : Parsed) (pending : Option OptionSpec) :
    List String → Except Refusal Parsed
  | [] => if pending.isSome then .error .usage else .ok parsed
  | argument :: rest =>
    match pending with
    | some spec => do
        if isOption argument then throw .usage
        readFrom signature (← parsed.add spec argument) none rest
    | none =>
      match argument.toList with
      | ['-', '-'] => addOperands signature parsed rest
      | '-' :: '-' :: name => do
          let (parsed, pending) ← readName signature parsed name
          readFrom signature parsed pending rest
      | '-' :: letter :: letters => do
          let (parsed, pending) ← readLetters signature parsed (letter :: letters)
          readFrom signature parsed pending rest
      | _ => do
          if signature.stopsAtOperand then return { parsed with rest := argument :: rest }
          readFrom signature (← addOperands signature parsed [argument]) none rest

/-- Read the arguments of a command. -/
def Signature.read (signature : Signature) (args : List String) : Except Refusal Parsed :=
  readFrom signature {} none args

end ModelWeaver.CommandLine
