import ConfigTree.Marker
import ConfigTree.Properties.Parse
import ConfigTree.Yaml.Number
import ConfigTree.Yaml.Visit

/-!
Source files: YAML and properties files as trees, all others as they are. The name of a file decides
which it is, and its path what source set it belongs to.
-/

namespace ConfigTree

/-- What a file holds. -/
inductive FileContent where
  | yaml (stream : Yaml.Stream)
  | properties (file : Properties.File)
  | text (text : Text)

structure SourceFile where
  id : NodeId
  path : Text
  markers : Markers
  content : FileContent

namespace FileContent

def print : FileContent → Text
  | yaml s => s.print
  | properties f => f.print
  | text t => t

/-- What kind of file it is, in a word. -/
def kind : FileContent → String
  | yaml _ => "yaml"
  | properties _ => "properties"
  | text _ => "text"

/-- The content of a file with this name. -/
def parse (path text : Text) : Except Yaml.SyntaxError FileContent :=
  let extension := Path.extension? path
  if extension = some "yml".toList ∨ extension = some "yaml".toList then (Yaml.parse text).map .yaml
  else if extension = some "properties".toList then .ok (.properties (Properties.parse text))
  else .ok (.text text)

end FileContent

namespace SourceFile

/-- The file as read, the `place`th of those that are read together. -/
def parse (place : Nat) (path text : Text) : Except Yaml.SyntaxError SourceFile :=
  (FileContent.parse path text).map fun content =>
    ⟨⟨place, 0⟩, path, ((sourceSetOfPath path).map Marker.sourceSet).toList, content⟩

/-- The build file as read, with the dependencies that it declares. -/
def parsePom (place : Nat) (path text : Text) : Except Maven.Problem SourceFile :=
  (Maven.Pom.parse text).map fun pom => ⟨⟨place, 0⟩, path, [.resolution pom.resolve], .text text⟩

/-- Why a file could not be read. -/
inductive Problem where
  | yaml (error : Yaml.SyntaxError)
  | pom (problem : Maven.Problem)
deriving DecidableEq, Repr

/-- The problem as told for the file at `path`. -/
def Problem.message (path : Text) : Problem → Text
  | yaml e => (e.message (String.ofList path)).toList
  | pom p => p.message

/-- Whether a file is a build file by its name. -/
def isPom (path : Text) : Bool := Path.fileName? path == some "pom.xml".toList

/-- The file as read, as a build file or another by its name. -/
def read (place : Nat) (path text : Text) : Except Problem SourceFile :=
  if isPom path then (parsePom place path text).mapError .pom
  else (parse place path text).mapError .yaml

def print (s : SourceFile) : Text := s.content.print

/-- Whether two files are one and the same node. -/
def same (s t : SourceFile) : Bool := s.id == t.id

/-- The revision of the next change to the file. -/
def nextRevision (s : SourceFile) : Nat := s.id.revision + 1

/-- A copy of the file with the given markers. -/
def withMarkers (s : SourceFile) (markers : Markers) : SourceFile :=
  { s with id := s.id.revised s.nextRevision, markers }

/-- The file with its YAML stream changed. It stays the node it is if the stream does. -/
def mapYaml (change : Yaml.Stream → Yaml.Stream) (s : SourceFile) : SourceFile :=
  match s.content with
  | .yaml stream =>
    let after := change stream
    if after.id = stream.id then s
    else { s with id := s.id.revised s.nextRevision, content := .yaml after }
  | _ => s

/-- The file with its properties changed. It stays the node it is if the properties do. -/
def mapProperties (change : Properties.File → Properties.File) (s : SourceFile) : SourceFile :=
  match s.content with
  | .properties file =>
    let after := change file
    if after.id = file.id then s
    else { s with id := s.id.revised s.nextRevision, content := .properties after }
  | _ => s

end SourceFile

end ConfigTree
