import ModelWeaver.CommandLine.Arguments
import ModelWeaver.CommandLine.FileTree
import ModelWeaver.CommandLine.Help
import ModelWeaver.CommandLine.Report

/-!
# The command line

The commands `run`, `test` and `extract`. A command reads and writes files through a
`FileSystem`, and ends with an exit code and what it has to say on the two output
streams.
-/

namespace ModelWeaver.CommandLine

open Document
open Text

/-- How a command ends. -/
structure Outcome where
  exit : Nat := 0
  stdout : String := ""
  stderr : String := ""
  deriving DecidableEq, Repr, Inhabited

/-- A command; it may end early. -/
abbrev Command (m : Type → Type) := ExceptT Outcome m

/-- End with an error message. -/
def stop {m : Type → Type} [Monad m] {α : Type} (exit : Nat) (message : String) :
    Command m α :=
  throw { exit, stderr := s!"error: {message}\n" }

/-- How the program ends when it stops. It has already said something, and gives the
reason. -/
def panicked (operation : Failure.Panic) (said : String) : Outcome :=
  { exit := 101, stderr := said ++ operation.message ++ "\n" }

variable {m : Type → Type} [Monad m]

/-! ## Expanding -/

/-- The file with the default settings. -/
def settingsFile : String := "mpl.toml"

/-- The options that all commands have. -/
def globalOptions : List OptionSpec := [{ id := "no-color", long := some "no-color" }]

/-- The options of commands that expand a document. -/
def expandOptions : List OptionSpec := globalOptions ++
  [ { id := "config", long := some "config", takesValue := true, allowsEmpty := false },
    { id := "inline-data", long := some "inline-data" },
    { id := "no-comments", long := some "no-comments" },
    { id := "define", short := some 'D', takesValue := true, repeatable := true } ]

/-- The settings of a file. -/
def readSettings (files : FileSystem m) (path : String) : Command m Settings := do
  match ← files.read path with
  | .error error => stop 2 s!"cannot read '{path}': {error.message}"
  | .ok text =>
    match Settings.parse? text with
    | some settings => return settings
    | none => stop 2 s!"{path}: {Settings.badFile}"

/-- The settings: from the given file, else from the default one if it is there. -/
def findSettings (files : FileSystem m) (path : Option String) : Command m Settings := do
  match path with
  | some path => readSettings files path
  | none => if ← files.isFile settingsFile then readSettings files settingsFile else return {}

/-- A document that is to be expanded. -/
structure Job where
  file : String
  source : String
  settings : Settings

/-- The document and the settings that arguments ask for. -/
def prepare (files : FileSystem m) (args : Parsed) : Command m Job := do
  let settings ← findSettings files (args.get? "config")
  let settings := { settings with
    inlineData := settings.inlineData || args.has "inline-data"
    echo := settings.echo && !args.has "no-comments" }
  let settings ← (args.getAll "define").foldlM (fun (settings : Settings) definition =>
    match settings.define? definition with
    | some settings => pure settings
    | none => stop 2 s!"-D {Settings.badDefinition definition}") settings
  let file := args.operands.headD ""
  match ← files.read file with
  | .error error => stop 1 s!"cannot read '{file}': {error.message}"
  | .ok source => return { file, source, settings }

/-- Expand a document. -/
def expand (job : Job) : Command m (String × Engine) := do
  let engine : Engine := { bindings := job.settings.bindings }
  match (Engine.expand job.settings.layout job.source).run engine with
  | .ok output engine => return (output, engine)
  | .error (.panicked operation) _ => throw (panicked operation "")
  | .error fault _ => stop 1 fault.failure.message

/-! ## The command `run` -/

/-- A range of bytes. -/
def spanText (span : Span) : String := s!"{span.start}..{span.stop}"

/-- How a region is listed. -/
def regionText (region : Region) : String :=
  let kind := match region.kind with
    | .literal => "Literal"
    | .quoted => "StringLiteral"
    | .comment => "Comment"
    | .inline expression =>
      "InlineEval \x7b expression: " ++ spanText expression.span ++ " \x7d"
    | .command name index body =>
      let index := match index with
        | some index => "Some(" ++ spanText index.span ++ ")"
        | none => "None"
      "Command \x7b name: \"" ++ name ++ "\", index: " ++ index ++ ", body: " ++
        spanText body.span ++ " \x7d"
  s!"{spanText region.span} {kind}\n"

/-- Cut a document into regions, and list or count them. -/
def scanOnly (job : Job) (listing : Bool) : Command m Outcome := do
  match scan job.source with
  | .error error => stop 1 error.message
  | .ok regions =>
    if listing then return { stdout := String.join (regions.map regionText) }
    let count := (regions.filter Region.isEvaluated).length
    return { stderr := s!"ok: {job.file} scanned successfully ({count} constructs)\n" }

/-- Expand a document and write the output. -/
def run (files : FileSystem m) (args : Parsed) : Command m Outcome := do
  let job ← prepare files args
  if args.has "check" || args.has "regions" then
    scanOnly job (args.has "regions")
  else
    let (output, _) ← expand job
    let text := Engine.fileText output
    match args.get? "output" with
    | none => return { stdout := text }
    | some path =>
      match ← files.write path text with
      | .ok () => return {}
      | .error error => stop 1 s!"cannot write '{path}': {error.message}"

/-- What `run` takes. -/
def runSignature : Signature where
  options := expandOptions ++
    [ { id := "output", long := some "output", short := some 'o', takesValue := true,
        allowsEmpty := false },
      { id := "check", long := some "check" },
      { id := "regions", long := some "regions" } ]
  operands := 1
  allowsEmpty := false

/-! ## The command `extract` -/

/-- What a solution says about one call. -/
def decodedText (decoded : Decoded) : String :=
  s!"  {decoded.name} = {Number.plainText decoded.value}\n" ++
    String.join (decoded.paths.map fun path =>
      let labels := ", ".intercalate path.labels
      s!"    {path.count} x [{labels}]\n")

/-- What a solution says about one submodel. -/
def submodelText (engine : Engine) (solution : Solution) (cuts : Bool) (name : String) :
    Except Failure String := do
  let decoded ← engine.extract name solution
  let broken ← if cuts then engine.separate name solution else pure []
  return s!"{name}:\n" ++ String.join (decoded.map decodedText) ++
    String.join (broken.map fun cut => s!"  cut: {cut.render}\n")

/-- Expand a document and decode a solution of it. -/
def extract (files : FileSystem m) (args : Parsed) : Command m Outcome := do
  let job ← prepare files args
  let (_, engine) ← expand job
  let values := solvedValues (← files.read ((args.get? "values").getD "")).toOption
  let solution : Solution := fun name => (values.get? name).getD 0.0
  let names := match args.get? "submodel" with
    | some name => [name]
    | none => engine.submodels
  if names.isEmpty then return { stderr := s!"no submodels in {job.file}\n" }
  names.foldlM (fun (outcome : Outcome) name =>
    match submodelText engine solution (args.has "separate") name with
    | .ok text => return { outcome with stdout := outcome.stdout ++ text }
    | .error failure =>
      throw { outcome with exit := 1, stderr := s!"error: {failure.message}\n" }) {}

/-- What `extract` takes. -/
def extractSignature : Signature where
  options := expandOptions ++
    [ { id := "values", long := some "values", takesValue := true, allowsEmpty := false },
      { id := "submodel", long := some "submodel", takesValue := true },
      { id := "separate", long := some "separate" } ]
  operands := 1
  allowsEmpty := false

/-! ## The command `test` -/

/-- Run a case. -/
def runCase (files : FileSystem m) (path : String) : m (Except Failure.Panic CaseResult) := do
  let content := match ← files.read path with
    | .ok text => .ok text
    | .error error => .error s!"cannot read case: {error.message}"
  return CaseResult.of path content

/-- What is said if there are no cases. -/
def noCases (path : String) : String := s!"no {caseSuffix} files under {path}\n"

/-- The cases that arguments ask for, and warnings about others. -/
def chooseCases (files : FileSystem m) (path : String) (requests : List String) :
    Command m (Categories × List String) := do
  let found := categories path (← files.filesUnder path)
  if found.isEmpty then throw { exit := 1, stderr := noCases path }
  let (selected, warnings) := if requests.isEmpty then (found, [])
    else selectCategories found requests
  if selected.isEmpty then
    throw { exit := 1, stderr := String.join warnings ++ "no matching categories\n" }
  return (selected, warnings)

/-- Run cases and report on them. -/
def runCases (files : FileSystem m) (args : Parsed) (path : String) :
    Command m Outcome := do
  let coloured := !args.has "no-color"
  let isFile ← files.isFile path
  let (selected, warnings) ← if isFile then pure ([("", [path])], [])
    else chooseCases files path (args.getAll "category")
  let (report, results) ← selected.foldlM (fun (report, results) (category, paths) => do
    let title := if isFile then ""
      else "\n" ++ paint coloured "1" (categoryTitle category) ++ "\n"
    paths.foldlM (fun (report, results) path => do
      match ← liftM (runCase files path) with
      | .ok result => return (report ++ result.line coloured, results ++ [result])
      | .error operation => throw (panicked operation report)) (report ++ title, results))
    (String.join warnings, ([] : List CaseResult))
  return {
    exit := if results.all fun result => result.failure.isNone then 0 else 1
    stderr := report ++ summary coloured results }

/-- List the categories of cases. -/
def listCategories (files : FileSystem m) (path : String) : Command m Outcome := do
  if ← files.isFile path then return { stderr := s!"{path} is a single case\n" }
  let found := categories path (← files.filesUnder path)
  return { stderr := if found.isEmpty then noCases path else categoryList found }

/-- Run cases, or list their categories. -/
def test (files : FileSystem m) (args : Parsed) : Command m Outcome := do
  let path := args.operands.headD ""
  if args.has "list-categories" then listCategories files path
  else runCases files args path

/-- What `test` takes. -/
def testSignature : Signature where
  options := globalOptions ++
    [ { id := "category", long := some "category", short := some 'c', takesValue := true,
        repeatable := true },
      { id := "list-categories", long := some "list-categories" } ]
  operands := 1

/-! ## All commands -/

/-- The names that stand for commands. Any other first argument is a document that
is to be expanded. -/
def commandNames : List String := ["run", "test", "extract", "help"]

/-- Put `run` in front of the first argument that is no option, unless that is a
command. -/
def withCommand : List String → List String
  | [] => []
  | argument :: rest =>
    if argument.startsWith "-" then argument :: withCommand rest
    else if commandNames.contains argument then argument :: rest
    else "run" :: argument :: rest

/-- What stands before the command. -/
def generalSignature : Signature where
  options := globalOptions
  operands := 0
  hasVersion := true
  stopsAtOperand := true

/-- The help on a command. -/
def helpOn? : String → Option String
  | "run" => some runHelp
  | "test" => some testHelp
  | "extract" => some extractHelp
  | "help" => some generalHelp
  | _ => none

/-- What becomes of arguments that are not carried out. -/
def refused (help : String) : Refusal → Outcome
  | .usage => { exit := 2, stderr := "error: invalid arguments\n" }
  | .help => { stdout := help }
  | .version => { stdout := versionText }

/-- Whether arguments name a document, and all that must be given with it. -/
def isComplete (args : Parsed) (needed : List String) : Bool :=
  args.operands.length = 1 && needed.all args.has

/-- Read the arguments of a command and carry it out. -/
def perform (general : Parsed) (signature : Signature) (needed : List String) (help : String)
    (command : Parsed → Command m Outcome) (args : List String) : Command m Outcome := do
  match signature.read args with
  | .error refusal => return refused help refusal
  | .ok parsed =>
    if isComplete parsed needed then
      command { parsed with values := general.values ++ parsed.values }
    else return refused help .usage

/-- Show help. -/
def help (args : List String) : Outcome :=
  match args with
  | [] => refused generalHelp .help
  | [name] =>
    match helpOn? name with
    | some text => refused text .help
    | none => refused generalHelp .usage
  | _ => refused generalHelp .usage

/-- Carry out a command line. -/
def execute (files : FileSystem m) (args : List String) : Command m Outcome := do
  match generalSignature.read (withCommand args) with
  | .error refusal => return refused generalHelp refusal
  | .ok general =>
    match general.rest with
    | "run" :: rest => perform general runSignature [] runHelp (run files) rest
    | "extract" :: rest =>
      perform general extractSignature ["values"] extractHelp (extract files) rest
    | "test" :: rest => perform general testSignature [] testHelp (test files) rest
    | "help" :: rest => return help rest
    | _ => return refused generalHelp .usage

/-- Carry out a command line and say how it ended. -/
def outcome (files : FileSystem m) (args : List String) : m Outcome := do
  match ← (execute files args).run with
  | .ok outcome | .error outcome => return outcome

end ModelWeaver.CommandLine
