import ModelWeaver.CommandLine.Case

/-!
# Reports on cases

Cases are grouped by the directory they are in, and a report says of each whether it
passed, then why others failed.
-/

namespace ModelWeaver.CommandLine

/-- How the names of cases end. -/
def caseSuffix : String := ".test.mod"

/-! ## Categories -/

/-- The paths of the cases in each directory below a root, by the names that lead to
the directory. -/
abbrev Categories := List (String × List String)

/-- A path and a name behind it. -/
def joinPath (path name : String) : String :=
  if path.endsWith "/" then path ++ name else path ++ "/" ++ name

/-- Whether a name is that of a case. -/
def isCaseName (name : String) : Bool := Text.endsWith caseSuffix.toList name.toList

/-- The cases below a root, given the files below it. Directories and cases are in
increasing order. -/
def categories (root : String) (files : List (List String)) : Categories :=
  let cases := files.filter fun names => names.getLast?.any isCaseName
  let grouped : NameMap (NameMap String) := cases.foldl (fun grouped names =>
    let name := names.getLast?.getD ""
    let path := names.foldl joinPath root
    grouped.insertWith (fun old new => ⟨old.entries ++ new.entries⟩)
      ("/".intercalate names.dropLast) ⟨[(name, path)]⟩) {}
  grouped.entries.map fun (category, paths) =>
    (category, (NameMap.ofList paths.entries).entries.map Prod.snd)

/-- How a category is shown. -/
def categoryTitle (category : String) : String :=
  if category.isEmpty then "(root)" else category

/-- Whether a category is the wanted one, or inside it. -/
def isWithin (wanted category : String) : Bool :=
  category = wanted || category.startsWith (wanted ++ "/")

/-- A requested category without slashes at its ends. -/
def wantedCategory (request : String) : String :=
  String.ofList (Text.trimBy (· = '/') request.toList)

/-- The requested categories, and a warning for each that is not there. -/
def selectCategories (all : Categories) (requests : List String) : Categories × List String :=
  let wanted := requests.map wantedCategory
  let unknown := wanted.filter fun name => !all.any fun entry => isWithin name entry.1
  let available := ", ".intercalate (all.map fun entry => categoryTitle entry.1)
  (all.filter fun entry => wanted.any fun name => isWithin name entry.1,
    unknown.map fun name => s!"warning: no category '{name}' (have: {available})\n")

/-- A number at the end of a column of four. -/
def column (n : Nat) : String :=
  let digits := Nat.toDigits 10 n
  String.ofList (List.replicate (4 - digits.length) ' ' ++ digits)

/-- The list of categories with the numbers of their cases. -/
def categoryList (all : Categories) : String :=
  String.join (all.map fun (category, paths) =>
    s!"{column paths.length}  {categoryTitle category}\n")

/-! ## Results -/

/-- The result of a case. -/
structure CaseResult where
  path : String
  description : Option String
  failure : Option String
  deriving DecidableEq, Repr, Inhabited

/-- What is shown of a case: its description, else its name. -/
def CaseResult.title (result : CaseResult) : String :=
  match result.description with
  | some description => description
  | none =>
    let name := (Text.split ['/'] result.path.toList).getLast?.getD []
    if Text.endsWith caseSuffix.toList name then
      String.ofList (name.take (name.length - caseSuffix.length))
    else "?"

/-- Run a case, given its content or why it cannot be read. -/
def CaseResult.of (path : String) (content : Except String String) :
    Except Failure.Panic CaseResult := do
  match content.bind Case.parse with
  | .error reason => return ⟨path, none, some reason⟩
  | .ok case =>
    match ← case.check.run with
    | .ok () => return ⟨path, case.description, none⟩
    | .error reason => return ⟨path, case.description, some reason⟩

/-- Show a text in a colour, if colours are wanted. -/
def paint (coloured : Bool) (code text : String) : String :=
  if coloured then s!"\x1b[{code}m{text}\x1b[0m" else text

/-- The line of a case. -/
def CaseResult.line (coloured : Bool) (result : CaseResult) : String :=
  let verdict := if result.failure.isNone then paint coloured "32" "PASS"
    else paint coloured "31" "FAIL"
  s!"  {verdict}  {result.title}\n"

/-- The lines of a text; an end of line at its end opens no further one. -/
def linesOf (text : String) : List String :=
  let parts := Text.split ['\n'] text.toList
  let parts := if parts.getLast? = some [] then parts.dropLast else parts
  parts.map fun part =>
    String.ofList (if part.getLast? = some '\r' then part.dropLast else part)

/-- Why a case failed. -/
def CaseResult.explanation (result : CaseResult) : String :=
  match result.failure with
  | none => ""
  | some reason =>
    s!"\n  {result.path}\n" ++ String.join ((linesOf reason).map fun line => s!"    {line}\n")

/-- The end of a report: why cases failed, and how many did. -/
def summary (coloured : Bool) (results : List CaseResult) : String :=
  let failures := results.filter fun result => result.failure.isSome
  let passed := results.length - failures.length
  let verdict := if failures.isEmpty then paint coloured "32" "ok"
    else paint coloured "31" "FAILED"
  (if failures.isEmpty then ""
    else "\nfailures:\n" ++ String.join (failures.map CaseResult.explanation)) ++
  s!"\n{passed} passed, {failures.length} failed: {verdict}\n"

end ModelWeaver.CommandLine
