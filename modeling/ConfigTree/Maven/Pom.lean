import ConfigTree.Maven.Bindings
import ConfigTree.Maven.Problem
import ConfigTree.Xml.Event

/-!
Build files, as far as resolving dependencies needs them. Elements are told by the path of
names from the root; text anywhere else counts for nothing. Values are kept as written,
placeholders included.
-/

namespace ConfigTree.Maven

structure Parent where
  group : Text
  artifact : Text
  version : Text
deriving DecidableEq, Repr

structure Dependency where
  group : Text
  artifact : Text
  version : Option Text
  scope : Option Text
  type : Option Text
deriving DecidableEq, Repr

structure Pom where
  group : Option Text
  artifact : Text
  version : Option Text
  parent : Option Parent
  properties : Bindings
  dependencies : List Dependency
  managed : List Dependency
deriving DecidableEq, Repr

namespace Parent

def empty : Parent := ⟨[], [], []⟩

/-- The parent with the field called `field` as given. -/
def set (p : Parent) (field : String) (value : Text) : Parent :=
  match field with
  | "groupId" => { p with group := value }
  | "artifactId" => { p with artifact := value }
  | "version" => { p with version := value }
  | _ => p

end Parent

namespace Dependency

def empty : Dependency := ⟨[], [], none, none, none⟩

/-- The dependency with the field called `field` as given. -/
def set (d : Dependency) (field : String) (value : Text) : Dependency :=
  match field with
  | "groupId" => { d with group := value }
  | "artifactId" => { d with artifact := value }
  | "version" => { d with version := some value }
  | "scope" => { d with scope := some value }
  | "type" => { d with type := some value }
  | _ => d

/-- Whether the dependency brings in the managed versions of another build file. -/
def isBom (d : Dependency) : Bool := d.scope == some "import".toList && d.type == some "pom".toList

end Dependency

/-- A build file while it is read: what is known of it, the names of the open elements, the
innermost first, and the dependency that is open. -/
structure PomReader where
  group : Option Text
  artifact : Option Text
  version : Option Text
  parent : Option Parent
  properties : Bindings
  dependencies : List Dependency
  managed : List Dependency
  path : List String
  pending : Option Dependency
deriving DecidableEq, Repr

namespace PomReader

def start : PomReader := ⟨none, none, none, none, .empty, [], [], [], none⟩

/-- Whether the path, the innermost name first, is that of the declared dependencies. -/
def isDeclaredList (path : List String) : Bool := path == ["dependencies", "project"]

/-- Whether the path is that of the managed dependencies. -/
def isManagedList (path : List String) : Bool :=
  path == ["dependencies", "dependencyManagement", "project"]

/-- An element opens. -/
def opened (r : PomReader) (name : String) : PomReader :=
  let pending :=
    if name = "dependency" ∧ (isDeclaredList r.path ∨ isManagedList r.path) then some Dependency.empty
    else r.pending
  { r with path := name :: r.path, pending }

/-- The innermost element closes. The dependency that was open is complete if its list is
what is left. -/
def closed (r : PomReader) : PomReader :=
  match r.path with
  | "dependency" :: path =>
    let r := { r with path }
    match r.pending with
    | none => r
    | some d =>
      if isManagedList path then { r with pending := none, managed := r.managed ++ [d] }
      else if isDeclaredList path then { r with pending := none, dependencies := r.dependencies ++ [d] }
      else { r with pending := none }
  | path => { r with path := path.tail }

/-- Text stands directly in the innermost element. -/
def text (r : PomReader) (value : Text) : PomReader :=
  match r.path with
  | ["groupId", "project"] => { r with group := some value }
  | ["artifactId", "project"] => { r with artifact := some value }
  | ["version", "project"] => { r with version := some value }
  | [field, "parent", "project"] =>
    { r with parent := some ((r.parent.getD .empty).set field value) }
  | [name, "properties", "project"] => { r with properties := r.properties.insert name.toList value }
  | field :: "dependency" :: "dependencies" :: _ =>
    { r with pending := r.pending.map (·.set field value) }
  | _ => r

def read (r : PomReader) : Xml.Event → PomReader
  | .opened name => r.opened name
  | .closed _ => r.closed
  | .text value => r.text value

/-- The build file, which has to name its artifact. -/
def finish (r : PomReader) : Except Problem Pom :=
  match r.artifact with
  | none => .error (.missingElement "artifactId".toList)
  | some artifact =>
    .ok ⟨r.group, artifact, r.version, r.parent, r.properties, r.dependencies, r.managed⟩

end PomReader

namespace Pom

/-- The build file told by a sequence of events. -/
def ofEvents (events : List Xml.Event) : Except Problem Pom :=
  (events.foldl PomReader.read PomReader.start).finish

/-- The build file in a text. -/
def parse (text : Text) : Except Problem Pom :=
  match Xml.events? text with
  | some events => ofEvents events
  | none => .error .malformed

/-- The group, which the parent gives where it is not declared. -/
def effectiveGroup (p : Pom) : Option Text := p.group <|> p.parent.map Parent.group

/-- The version, which the parent gives where it is not declared. -/
def effectiveVersion (p : Pom) : Option Text := p.version <|> p.parent.map Parent.version

end Pom

end ConfigTree.Maven
