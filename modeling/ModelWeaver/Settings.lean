import ModelWeaver.Engine
import ModelWeaver.Toml.Document

/-!
# Settings

How documents are expanded by default, from a settings file and from definitions on
the command line; and the values of solved variables, which are kept in a file of the
same form.
-/

namespace ModelWeaver

open Document (Layout)

/-- What a settings file says. -/
structure Settings where
  /-- Whether data statements follow the construct that produced them. -/
  inlineData : Bool := false
  /-- Whether constructs are shown in comments. -/
  echo : Bool := true
  /-- The variables that documents start with. -/
  bindings : NameMap Value := {}
  deriving Inhabited

/-- The layout that settings ask for. -/
def layoutFor (inlineData echo : Bool) : Layout where
  dataMode := if inlineData then .inline else .consolidated
  echo

namespace Settings

/-- Take over one entry of a settings file. There are no other keys than these. -/
def withEntry (settings : Settings) : String × Toml → Option Settings
  | ("inline_data", value) => do return { settings with inlineData := ← value.bool? }
  | ("comment_cmds", value) => do return { settings with echo := ← value.bool? }
  | ("bindings", value) => do return { settings with bindings := ← value.bindings? }
  | _ => none

/-- Read a settings file. -/
def parse? (text : String) : Option Settings := do
  (← Toml.Document.parse? text).foldlM withEntry {}

/-- The layout of the output. -/
def layout (settings : Settings) : Layout := layoutFor settings.inlineData settings.echo

/-- The value of a definition, if it is written as in a settings file; any other text
stands for itself. -/
def definedValue (text : String) : Value :=
  let written := do (← (← Toml.Document.parse? ("value = " ++ text)).lookup "value").toValue?
  written.getD (.str text)

/-- Add a definition `name=value`, unless there is no `=`. -/
def define? (settings : Settings) (definition : String) : Option Settings :=
  let cs := definition.toList
  let name := cs.takeWhile (· ≠ '=')
  match cs.drop name.length with
  | [] => none
  | _ :: value =>
    some { settings with
      bindings := settings.bindings.insert (Text.trim (String.ofList name))
        (definedValue (Text.trim (String.ofList value))) }

/-- What is said about a definition without `=`. -/
def badDefinition (definition : String) : String := s!"expected name=value, got '{definition}'"

/-- What is said about a settings file that cannot be read. -/
def badFile : String := "TOML parse error"

end Settings

/-- The numbers in a file of solved variables. Other entries do not count, nor does a
file that cannot be read. -/
def solvedValues (text : Option String) : NameMap Float :=
  let entries := do
    let entries ← Toml.Document.parse? (← text)
    discard (Toml.toEntries? entries)
    return entries
  NameMap.ofDistinct ((entries.getD []).filterMap fun (name, value) =>
    value.number?.map fun x => (name, x))

end ModelWeaver
