import ModelWeaver.Text.Search

/-!
# Files

What the command line asks of a file system, and a file system that is just a list of
files, in which commands can be tried out.
-/

namespace ModelWeaver.CommandLine

/-- Why a file cannot be used. -/
inductive FileError where
  | missing
  | isDirectory
  | notDirectory
  deriving DecidableEq, Repr, Inhabited

/-- The wording of an error. -/
def FileError.message : FileError → String
  | missing => "No such file or directory (os error 2)"
  | isDirectory => "Is a directory (os error 21)"
  | notDirectory => "Not a directory (os error 20)"

/-- The operations on files that commands use. -/
structure FileSystem (m : Type → Type) where
  read : String → m (Except FileError String)
  write : (path text : String) → m (Except FileError Unit)
  isFile : String → m Bool
  /-- The names on the way from a directory to each file below it. -/
  filesUnder : String → m (List (List String))

/-- Files with their contents, each at a path of names. -/
structure FileTree where
  files : List (List String × String) := []
  deriving DecidableEq, Repr, Inhabited

namespace FileTree

/-- Whether some names lead to a directory. -/
def isDirectory (tree : FileTree) (names : List String) : Bool :=
  names.isEmpty || tree.files.any fun file => names.isPrefixOf file.1 && names ≠ file.1

/-- The content of the file that some names lead to. -/
def content? (tree : FileTree) (names : List String) : Option String := tree.files.lookup names

/-- Follow one name from a directory. -/
def enter (tree : FileTree) (names : List String) (name : String) :
    Except FileError (List String) :=
  if (tree.content? names).isSome then .error .notDirectory
  else if !tree.isDirectory names then .error .missing
  else if name = "" || name = "." then .ok names
  else if name = ".." then if names.isEmpty then .error .missing else .ok names.dropLast
  else .ok (names ++ [name])

/-- Where a path leads. -/
def resolve (tree : FileTree) (path : String) : Except FileError (List String) :=
  if path.isEmpty || path.startsWith "/" then .error .missing
  else ((Text.split ['/'] path.toList).map String.ofList).foldlM tree.enter []

/-- Read a file. -/
def read (tree : FileTree) (path : String) : Except FileError String := do
  let names ← tree.resolve path
  match tree.content? names with
  | some text => return text
  | none => throw (if tree.isDirectory names then .isDirectory else .missing)

/-- Write a file in a directory that exists. -/
def write (tree : FileTree) (path text : String) : Except FileError FileTree := do
  let names ← tree.resolve path
  if tree.isDirectory names then throw .isDirectory
  if !tree.isDirectory names.dropLast then throw .missing
  return ⟨(tree.files.filter fun file => file.1 ≠ names) ++ [(names, text)]⟩

/-- The files below a directory. -/
def filesUnder (tree : FileTree) (path : String) : List (List String) :=
  match tree.resolve path with
  | .error _ => []
  | .ok names => (tree.files.map Prod.fst).filterMap fun file =>
    if names.isPrefixOf file && names ≠ file then some (file.drop names.length) else none

/-- The tree of files with given paths. -/
def ofFiles (files : List (String × String)) : FileTree :=
  ⟨files.map fun (path, text) => ((Text.split ['/'] path.toList).map String.ofList, text)⟩

/-- The file system of a tree. -/
def fileSystem : FileSystem (StateM FileTree) where
  read path := return (← get).read path
  write path text := do
    match (← get).write path text with
    | .ok tree => set tree; return .ok ()
    | .error error => return .error error
  isFile path := return ((← get).read path).toOption.isSome
  filesUnder path := return (← get).filesUnder path

end FileTree

end ModelWeaver.CommandLine
