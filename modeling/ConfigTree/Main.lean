import ConfigTree.CommandLine.Run

/-!
The program: collects the files that a command asks for, runs it, and prints and writes
what comes of it.
-/

namespace ConfigTree.CommandLine

/-- Reads a file of the system. -/
def readStored (path : String) : IO (Except ReadProblem Text) := do
  try
    match String.fromUTF8? (← IO.FS.readBinFile path) with
    | some s => return .ok s.toList
    | none => return .error .notText
  catch
    | .noFileOrDirectory .. => return .error .missing
    | e => return .error (.other (toString e).toList)

/-- Collects the files below a directory. `names` lead to it. Only files that are of
use are read. -/
partial def collect (names : List Text) (directory : IO.FS.DirEntry) : IO (List StoredFile) := do
  let mut found := []
  for entry in ← directory.path.readDir do
    let inside := names ++ [entry.fileName.toList]
    if ← entry.path.isDir then
      unless skippedDirectories.contains entry.fileName.toList do
        found := found ++ (← collect inside entry)
    else
      let stored : StoredFile := ⟨inside, none⟩
      let text ← if stored.isLoaded then readStored entry.path.toString else pure (.error .missing)
      found := found ++ [{ stored with text := text.toOption }]
  return found

/-- The files of the project at `root`, if it is a directory. -/
def collectProject (root : Text) : IO (Option (List StoredFile)) := do
  let directory : IO.FS.DirEntry := ⟨String.ofList root, "."⟩
  if ← directory.path.isDir then
    let tree : FileTree := (← collect [] directory)
    return tree.below ['.']
  else return none

/-- The files that the arguments of the program ask for. -/
def collectFiles (args : List Text) : IO Files := do
  match Request.parse args with
  | .run ⟨command, _⟩ =>
    let input ← match command.input? with
      | some path => readStored (String.ofList path)
      | none => pure (.error .missing)
    let project ← match command.root? with
      | some root => collectProject root
      | none => pure none
    return ⟨fun _ => input, fun _ => project⟩
  | _ => return ⟨fun _ => .error .missing, fun _ => none⟩

end ConfigTree.CommandLine

open ConfigTree.CommandLine in
def main (args : List String) : IO UInt32 := do
  let args := args.map String.toList
  let name := (← IO.appPath).fileName.getD ""
  let outcome := run name.toList (← collectFiles args) args
  IO.print (String.ofList outcome.output)
  IO.eprint (String.ofList outcome.errors)
  match outcome.written with
  | some (path, text) => IO.FS.writeFile (String.ofList path) (String.ofList text)
  | none => pure ()
  return outcome.code.toUInt32
