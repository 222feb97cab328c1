import ConfigTree.CommandLine.FileTree
import ConfigTree.Source

/-!
Projects: the build files and the configuration files below a directory.
-/

namespace ConfigTree.CommandLine

/-- Directories that hold nothing written by hand. -/
def skippedDirectories : List Text := ["target".toList, ".git".toList, "node_modules".toList]

namespace StoredFile

/-- The path from the directory that the names start at. -/
def path (f : StoredFile) : Text := Text.joinWith '/' f.names

/-- Whether no directory around the file is skipped. -/
def isReached (f : StoredFile) : Bool := f.names.dropLast.all fun n => !skippedDirectories.contains n

/-- Whether the file is a build file, a YAML file or a properties file by its name. -/
def isLoaded (f : StoredFile) : Bool :=
  SourceFile.isPom f.path ||
    match Path.extension? f.path with
    | some e => e == "yml".toList || e == "yaml".toList || e == "properties".toList
    | none => false

/-- The file as a source file, if it is of use and can be read. -/
def source? (f : StoredFile) (place : Nat) : Option SourceFile :=
  if f.isReached && f.isLoaded then f.text >>= fun text => (SourceFile.read place f.path text).toOption
  else none

end StoredFile

/-- The source files among the given files, in their order. Files that cannot be read are
passed over. -/
def loadProject (fs : List StoredFile) : List SourceFile :=
  fs.zipIdx.filterMap fun (f, place) => f.source? place

end ConfigTree.CommandLine
