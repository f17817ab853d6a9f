/-!
# Help texts

What the command line says about itself.
-/

namespace ModelWeaver.CommandLine

/-- The name and version of the program. -/
def versionText : String := "mpl 0.1.0\n"

/-- Lines of a text. -/
def textOf (lines : List String) : String := String.join (lines.map (· ++ "\n"))

/-- A line on an option: what is typed, padded to a width, and what it does. -/
def optionLine (width : Nat) (typed does : String) : String :=
  "  " ++ typed.pushn ' ' (width - typed.length) ++ "  " ++ does

/-- The lines on the options of all commands that expand a document. -/
def expansionLines (width : Nat) : List String :=
  [ optionLine width "    --config <CONFIG>"
      "Configuration file (default: ./mpl.toml when present)",
    optionLine width "    --no-color" "Disable colored error output",
    optionLine width "    --inline-data" "Place each command's data right after it",
    optionLine width "    --no-comments" "Do not echo evaluated commands as comments",
    optionLine width "-D <NAME=VALUE>"
      "Bind a snippet variable, e.g. -D n=10 or -D 'W=[5, 7]'. Repeatable" ]

/-- Help on all commands. -/
def generalHelp : String := textOf
  [ "Macro expander for AMPL/GMPL models",
    "",
    "Usage: mpl [OPTIONS] <COMMAND>",
    "",
    "Commands:",
    "  run      Expand a model document",
    "  test     Run .test.mod test files",
    "  extract  Expand a model, then decode a solution through its submodels",
    "  help     Print this message or the help of the given subcommand(s)",
    "",
    "Options:",
    "      --no-color  Disable colored error output",
    "  -h, --help      Print help",
    "  -V, --version   Print version" ]

/-- Help on expanding a document. -/
def runHelp : String := textOf <|
  [ "Expand a model document",
    "",
    "Usage: mpl run [OPTIONS] <FILE>",
    "",
    "Arguments:",
    "  <FILE>  Model document to expand",
    "",
    "Options:" ] ++ expansionLines 21 ++
  [ "  -o, --output <OUTPUT>  Write the output here instead of stdout",
    "      --check            Scan only, don't expand (exit 0 if valid)",
    "      --regions          Dump the scanned regions",
    "  -h, --help             Print help" ]

/-- Help on running cases. -/
def testHelp : String := textOf
  [ "Run .test.mod test files",
    "",
    "Usage: mpl test [OPTIONS] <PATH>",
    "",
    "Arguments:",
    "  <PATH>  Path to a .test.mod file or directory containing them",
    "",
    "Options:",
    "  -c, --category <CATEGORY>  Run only tests in these categories (subfolder names). Repeatable",
    "      --no-color             Disable colored error output",
    "      --list-categories      List available categories and exit",
    "  -h, --help                 Print help" ]

/-- Help on decoding solutions. -/
def extractHelp : String := textOf <|
  [ "Expand a model, then decode a solution through its submodels",
    "",
    "Usage: mpl extract [OPTIONS] --values <VALUES> <FILE>",
    "",
    "Arguments:",
    "  <FILE>  Model document to expand",
    "",
    "Options:" ] ++ expansionLines 25 ++
  [ "      --values <VALUES>      TOML table of solved variable values",
    "      --submodel <SUBMODEL>  Query only this submodel",
    "      --separate             Also print violated valid inequalities",
    "  -h, --help                 Print help" ]

end ModelWeaver.CommandLine
