import ModelWeaver.Settings

/-!
# Cases

A case is a document with what is expected of its expansion, which stands in front of
it between two lines of dashes.
-/

namespace ModelWeaver.CommandLine

open Text

/-- A document and what is expected of it. -/
structure Case where
  source : String := ""
  description : Option String := none
  bindings : NameMap Value := {}
  inlineData : Bool := false
  echo : Bool := false
  /-- The whole output; blanks at its ends do not count. -/
  output : Option String := none
  contained : List String := []
  absent : List String := []
  /-- A part of the message of a fault. -/
  fault : Option String := none
  /-- Whether the document cannot be cut into regions. -/
  unreadable : Bool := false
  /-- The submodels in the order of their first calls. -/
  submodels : Option (List String) := none
  deriving Inhabited

namespace Case

/-! ## Reading -/

/-- Texts in an array. -/
def texts? (toml : Toml) : Option (List String) := do (← toml.items?).mapM Toml.str?

/-- Take over one expectation. There are no other keys than these. -/
def withEntry (case : Case) : String × Toml → Option Case
  | ("description", value) => do return { case with description := some (← value.str?) }
  | ("bindings", value) => do return { case with bindings := ← value.bindings? }
  | ("inline_data", value) => do return { case with inlineData := ← value.bool? }
  | ("comment_cmds", value) => do return { case with echo := ← value.bool? }
  | ("expect_output", value) => do return { case with output := some (← value.str?) }
  | ("expect_contains", value) => do return { case with contained := ← texts? value }
  | ("expect_absent", value) => do return { case with absent := ← texts? value }
  | ("expect_error", value) => do return { case with fault := some (← value.str?) }
  | ("expect_parse_error", value) => do return { case with unreadable := ← value.bool? }
  | ("expect_submodels", value) => do return { case with submodels := some (← texts? value) }
  | _ => none

/-- Drop a given start, if it is there. -/
def dropIf (start : String) (cs : List Char) : List Char :=
  (dropStart? start.toList cs).getD cs

/-- Drop the end of a line, if it is there. -/
def dropLineEnd (cs : List Char) : List Char := dropIf "\n" (dropIf "\r" cs)

/-- The texts before and after the first occurrence of a piece. -/
def splitOnce? (piece : List Char) : List Char → Option (List Char × List Char)
  | [] => none
  | c :: cs =>
    match dropStart? piece (c :: cs) with
    | some rest => some ([], rest)
    | none => (splitOnce? piece cs).map fun (before, rest) => (c :: before, rest)

/-- Read a case. -/
def parse (content : String) : Except String Case := do
  let some rest := dropStart? "---".toList (dropIf "\uFEFF" content.toList)
    | throw "a case must start with a --- line"
  let some (header, document) := splitOnce? "\n---".toList (dropLineEnd rest)
    | throw "frontmatter is not closed by a --- line"
  let source := String.ofList (dropLineEnd document)
  match (Toml.Document.parse? (String.ofList header)).bind fun entries =>
      entries.foldlM withEntry { source } with
  | some case => return case
  | none => throw s!"frontmatter: {Settings.badFile}"

/-! ## Checking -/

/-- Whether a text holds another. -/
def holds (text piece : String) : Bool := isInfixOf piece.toList text.toList

/-- Compare an output with what is expected of it. -/
def checkOutput (case : Case) (output : String) (submodels : List String) :
    Except String Unit := do
  let actual := trim output
  if let some expected := case.output then
    if actual ≠ trim expected then
      throw s!"wrong output\n  expected: {trim expected}\n  actual:   {actual}"
  if let some piece := case.contained.find? fun piece => !holds output piece then
    throw s!"missing \"{piece}\"\n  actual: {actual}"
  if let some piece := case.absent.find? (holds output) then
    throw s!"unexpected \"{piece}\"\n  actual: {actual}"
  if let some expected := case.submodels then
    if submodels ≠ expected then
      let list := fun (names : List String) => ", ".intercalate names
      throw s!"submodels [{list submodels}], expected [{list expected}]"

/-- Expand the document of a case, and say how it differs from what is expected. If
the program stops on the way, nothing is said about the case. -/
def check (case : Case) : ExceptT String (Except Failure.Panic) Unit := do
  match case.unreadable, Document.scan case.source with
  | true, .error _ => return ()
  | true, .ok _ => throw "document scanned, but a scan error was expected"
  | false, .error error => throw s!"scan error: {error.message}"
  | false, .ok _ =>
    let engine : Engine := { bindings := case.bindings }
    let layout := layoutFor case.inlineData case.echo
    match case.fault, (Engine.expand layout case.source).run engine with
    | _, .error (.panicked operation) _ => throwThe Failure.Panic operation
    | none, .ok output engine => case.checkOutput output engine.submodels
    | none, .error fault _ => throw s!"translation failed: {fault.message}"
    | some expected, .ok _ _ =>
      throw s!"translation succeeded, expected error \"{expected}\""
    | some expected, .error fault _ =>
      if holds fault.message expected then return ()
      else throw s!"expected error \"{expected}\"\n  got: {fault.message}"

end Case

end ModelWeaver.CommandLine
