import RuleBuild.Session
import RuleBuild.Shell

/-!
The program. The names of the project's files come on standard input, one on each line. The files
are read before the call is answered, and those that are new or changed are written after it.
-/
namespace RuleBuild.Program

/-- The lines that are left of a stream. -/
partial def readLines (s : IO.FS.Stream) : IO (List String) := do
  let line ← s.getLine
  if line.isEmpty then return []
  return Text.trim line :: (← readLines s)

/-- A file system with an empty current directory. -/
def startIn (current : Path) : FileSystem :=
  let fs := (FileSystem.empty.ensureDirectory current).toOption.getD .empty
  match fs.locate current with
  | .ok place => { fs with current := place }
  | .error _ => fs

/-- A file system with one more file. -/
def withFile (fs : FileSystem) (path : Path) (content : Bytes) : FileSystem :=
  let put : Except FileError FileSystem := do
    let fs ← path.parent?.elim (.ok fs) fs.ensureDirectory
    fs.write path content
  put.toOption.getD fs

/-- The files of these names, seen from a directory. -/
def readFiles (current : Path) (names : List String) : IO FileSystem := do
  let mut fs := startIn current
  for name in names do
    let bytes ← IO.FS.readBinFile name
    fs := withFile fs (Path.ofString name) bytes.toList
  return fs

/-- The files that are new or changed, with their content. -/
def changes (before after : FileSystem) : List (Location × Bytes) :=
  after.entries.toList.filterMap fun e =>
    match e.2 with
    | .file content =>
      if before.entries[e.1]? = some (.file content) then none else some (e.1, content)
    | .directory => none

/-- Writes the files that are new or changed. -/
def writeChanges (before after : FileSystem) : IO Unit := do
  for (place, content) in changes before after do
    IO.FS.createDirAll (FileSystem.pathTo place.dropLast).toString
    IO.FS.writeBinFile (FileSystem.pathTo place).toString ⟨content.toArray⟩

/-- Answers a call and returns the status to end with. -/
def run (words : List String) : IO Nat := do
  let current := Path.ofString ((← IO.getEnv "PWD").getD "/")
  -- Words that ask for nothing leave the files unread.
  let names ← if (Request.ofWords words).isOk then readLines (← IO.getStdin) else pure []
  let before ← readFiles current names
  let colours := (← IO.getEnv "NO_COLOR").isNone
  let session : Session := ⟨Shell.launcher before [], colours⟩
  let ending := session.answer before words
  writeChanges before ending.fs
  (← IO.getStdout).putStr ending.output
  (← IO.getStderr).putStr ending.errors
  return ending.status

end RuleBuild.Program

/-- The program's entry point. -/
def main (args : List String) : IO UInt32 := do
  return UInt32.ofNat (← RuleBuild.Program.run args)
