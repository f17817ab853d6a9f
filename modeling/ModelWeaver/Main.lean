import ModelWeaver.CommandLine.Program

/-!
# The program

Carries out its command line on the files of the machine.
-/

namespace ModelWeaver.CommandLine

/-- The error of a file that could not be used. -/
def fileErrorAt (path : String) : IO FileError := do
  try
    return if ← (← IO.FS.realPath path).isDir then .isDirectory else .notDirectory
  catch _ => return .missing

/-- The names on the way to each file at or below an entry of a directory. -/
partial def filesAt (entry : IO.FS.DirEntry) : IO (List (List String)) := do
  if ← entry.path.isDir then
    let below ← (← entry.path.readDir).toList.mapM filesAt
    return below.flatten.map (entry.fileName :: ·)
  else return [[entry.fileName]]

/-- The files of the machine. -/
def machineFiles : FileSystem IO where
  read path := do
    try return .ok (← IO.FS.readFile path)
    catch _ => return .error (← fileErrorAt path)
  write path text := do
    try
      IO.FS.writeFile path text
      return .ok ()
    catch _ => return .error (← fileErrorAt path)
  isFile path := do
    try return !(← (← IO.FS.realPath path).isDir)
    catch _ => return false
  filesUnder path := do
    try
      let below ← (← (← IO.FS.realPath path).readDir).toList.mapM filesAt
      return below.flatten
    catch _ => return []

end ModelWeaver.CommandLine

/-- Carry out the command line. -/
def main (args : List String) : IO UInt32 := do
  let outcome ← ModelWeaver.CommandLine.outcome ModelWeaver.CommandLine.machineFiles args
  IO.print outcome.stdout
  IO.eprint outcome.stderr
  return UInt32.ofNat outcome.exit
