import ConfigTree.Glob.Parse
import ConfigTree.Maven.Pom
import ConfigTree.Maven.Scope
import ConfigTree.Maven.Version
import ConfigTree.Text.Quoted

/-!
Resolving the dependencies of one build file without a repository. Versions come from the file:
from the dependency, from the managed dependencies, or from the Spring Boot version that a parent
or an imported bill of materials stands for. Spring Boot artifacts bring in the core of the Spring
Framework line that goes with them, and other Spring Framework artifacts bring in the core of
their own version.
-/

namespace ConfigTree.Maven

def bootGroup : Text := "org.springframework.boot".toList

def frameworkGroup : Text := "org.springframework".toList

/-- The Spring Framework version that the first release of a Spring Boot line came with. -/
def frameworkOfBootLine : Nat × Nat → Option Text
  | (1, 5) => some "4.3.6.RELEASE".toList
  | (2, 0) => some "5.0.4.RELEASE".toList
  | (2, 1) => some "5.1.2.RELEASE".toList
  | (2, 2) => some "5.2.1.RELEASE".toList
  | (2, 3) => some "5.2.6.RELEASE".toList
  | (2, 4) => some "5.3.1".toList
  | (2, 5) => some "5.3.7".toList
  | (2, 6) => some "5.3.13".toList
  | (2, 7) => some "5.3.20".toList
  | (3, 0) => some "6.0.2".toList
  | (3, 1) => some "6.0.9".toList
  | (3, 2) => some "6.1.1".toList
  | (3, 3) => some "6.1.8".toList
  | (3, 4) => some "6.2.0".toList
  | _ => none

/-- The Spring Framework version that goes with a Spring Boot version, if its line is known. -/
def frameworkVersion (boot : Text) : Option Text :=
  (Version.parse? boot).bind fun v => frameworkOfBootLine (v.major, v.minor)

/-- A dependency with its version. Declared dependencies have depth zero, and what they bring in has
depth one. -/
structure ResolvedDependency where
  group : Text
  artifact : Text
  version : Text
  scope : Scope
  depth : Nat
deriving DecidableEq, Repr

namespace ResolvedDependency

def isDirect (d : ResolvedDependency) : Bool := d.depth == 0

/-- The coordinates and the scope in one line. -/
def display (d : ResolvedDependency) : Text :=
  d.group ++ ':' :: d.artifact ++ ':' :: d.version ++ " (".toList ++ d.scope.name ++ [')']

/-- Whether two dependencies are on the same artifact in the same scope. -/
def sameArtifact (d e : ResolvedDependency) : Bool :=
  d.group == e.group && d.artifact == e.artifact && d.scope == e.scope

end ResolvedDependency

/-- What is worth telling about a resolution. -/
inductive Warning where
  | unknownBootLine (boot : Text)
  | unknownScope (scope group artifact : Text)
  | unresolvedVersion (group artifact : Text)
deriving DecidableEq, Repr

def Warning.message : Warning → Text
  | unknownBootLine boot => "No Spring Framework alignment known for Spring Boot ".toList ++ boot ++
      "; framework artifacts stay unresolved".toList
  | unknownScope scope group artifact => "Unknown scope ".toList ++ Text.quoted scope ++ " on ".toList ++
      group ++ ':' :: artifact ++ ", using compile".toList
  | unresolvedVersion group artifact => "Could not resolve a version for ".toList ++ group ++ ':' :: artifact

/-- What is known of the project that a build file describes. -/
structure Resolution where
  group : Option Text
  artifact : Text
  version : Option Text
  /-- The Spring Boot version that manages the dependencies. -/
  bootVersion : Option Text
  dependencies : List ResolvedDependency
  warnings : List Warning
deriving DecidableEq, Repr

namespace Resolution

/-- The dependencies on the classpath of `scope` whose group and artifact match the given names. -/
def findDependencies (r : Resolution) (group artifact : Text) (scope : Scope) : List ResolvedDependency :=
  let groups := Glob.Matcher.ofText group
  let artifacts := Glob.Matcher.ofText artifact
  r.dependencies.filter fun d =>
    groups.isMatch d.group && artifacts.isMatch d.artifact && d.scope.isOnClasspathOf scope

end Resolution

/-- Versions of artifacts. An artifact has one version. -/
structure VersionTable where
  rows : List ((Text × Text) × Text)
deriving DecidableEq, Repr

namespace VersionTable

def empty : VersionTable := ⟨[]⟩

def find? (table : VersionTable) (group artifact : Text) : Option Text :=
  table.rows.lookup (group, artifact)

/-- The table with a version for an artifact, whatever version it had there. -/
def insert (table : VersionTable) (group artifact version : Text) : VersionTable :=
  ⟨((group, artifact), version) :: table.rows.filter (·.1 ≠ (group, artifact))⟩

@[simp] theorem find?_empty (group artifact : Text) : empty.find? group artifact = none := rfl

@[simp] theorem find?_insert_self (table : VersionTable) (group artifact version : Text) :
    (table.insert group artifact version).find? group artifact = some version := by
  simp [insert, find?]

theorem find?_insert_ne (table : VersionTable) {group artifact group' artifact' : Text}
    (version : Text) (other : (group', artifact') ≠ (group, artifact)) :
    (table.insert group artifact version).find? group' artifact' =
      table.find? group' artifact' := by
  have apart : ((group', artifact') == (group, artifact)) = false := beq_eq_false_iff_ne.mpr other
  simp only [insert, find?, List.lookup_cons, apart, lookup_filter_ne other]

end VersionTable

namespace Pom

/-! ### What versions come from -/

/-- Binds `project.` and `pom.` in front of `name`, if there is a value. -/
def bindProject (name : Text) (value : Option Text) (b : Bindings) : Bindings :=
  match value with
  | none => b
  | some v => (b.insert ("project.".toList ++ name) v).insert ("pom.".toList ++ name) v

/-- The properties with the coordinates of the project among them. -/
def bindings (p : Pom) : Bindings :=
  bindProject "parent.version".toList (p.parent.map Parent.version) <|
    bindProject "version".toList p.effectiveVersion <|
      bindProject "artifactId".toList (some p.artifact) <|
        bindProject "groupId".toList p.effectiveGroup p.properties

/-- The text with its placeholders replaced. -/
def expand (p : Pom) (t : Text) : Text := p.bindings.expand t

/-- The Spring Boot version of the parent, if the parent stands for one. -/
def bootVersionOfParent (p : Pom) : Option Text :=
  p.parent.bind fun parent =>
    if parent.group = bootGroup ∧ (parent.artifact = "spring-boot-starter-parent".toList ∨
        parent.artifact = "spring-boot-dependencies".toList) then some (p.expand parent.version)
    else none

/-- The Spring Boot version of the first bill of materials that stands for one. -/
def bootVersionOfBom (p : Pom) : Option Text :=
  (p.managed.find? fun d => d.isBom ∧ p.expand d.group = bootGroup ∧
    p.expand d.artifact = "spring-boot-dependencies".toList).bind fun d => d.version.map p.expand

/-- The Spring Boot version that manages the dependencies. -/
def bootVersion (p : Pom) : Option Text := p.bootVersionOfParent <|> p.bootVersionOfBom

/-- The table with the version that a managed dependency states. A bill of materials states none for
itself. -/
def enter (p : Pom) (table : VersionTable) (d : Dependency) : VersionTable :=
  if d.isBom then table
  else
    match d.version with
    | none => table
    | some v => table.insert (p.expand d.group) (p.expand d.artifact) (p.expand v)

/-- The versions of the managed dependencies, the later ones in the place of the earlier ones. -/
def managedTable (p : Pom) : VersionTable := p.managed.foldl p.enter .empty

/-- The version of an artifact that the managed dependencies state. -/
def managedInFile (p : Pom) (group artifact : Text) : Option Text :=
  p.managedTable.find? group artifact

/-- The version that goes with the Spring Boot version, for groups that it manages. -/
def managedByBoot (p : Pom) (group : Text) : Option Text :=
  if group = bootGroup then p.bootVersion
  else if group = frameworkGroup then p.bootVersion.bind frameworkVersion
  else none

/-- The version of an artifact for which a dependency gives none. -/
def managedVersion (p : Pom) (group artifact : Text) : Option Text :=
  p.managedInFile group artifact <|> p.managedByBoot group

/-! ### Declared dependencies -/

/-- Whether a placeholder opens anywhere in a text. -/
def hasPlaceholder (t : Text) : Bool := (Text.cutAt ['$', '\x7b'] t).isSome

/-- The version of a declared dependency: its own, or else the managed one. -/
def versionOf (p : Pom) (d : Dependency) : Option Text :=
  let version := match d.version with
    | some v => some (p.expand v)
    | none => p.managedVersion (p.expand d.group) (p.expand d.artifact)
  version.filter (!hasPlaceholder ·)

/-- The scope of a declared dependency, with a warning if it is none. -/
def scopeOf (p : Pom) (d : Dependency) : Scope × List Warning :=
  match d.scope with
  | none => (.compile, [])
  | some s =>
    match Scope.parse s with
    | .ok scope => (scope, [])
    | .error _ => (.compile, [.unknownScope s (p.expand d.group) (p.expand d.artifact)])

/-- A declared dependency resolved, and the warnings about it. -/
def resolveDirect (p : Pom) (d : Dependency) : Option ResolvedDependency × List Warning :=
  match p.versionOf d with
  | none => (none, [.unresolvedVersion d.group d.artifact])
  | some version =>
    let (scope, warnings) := p.scopeOf d
    (some ⟨p.expand d.group, p.expand d.artifact, version, scope, 0⟩, warnings)

/-- The declared dependencies that have a version. -/
def direct (p : Pom) : List ResolvedDependency := p.dependencies.filterMap fun d => (p.resolveDirect d).1

/-! ### What they bring in -/

/-- What a declared dependency brings in. -/
def broughtIn (p : Pom) (d : ResolvedDependency) : List ResolvedDependency :=
  if d.group = bootGroup then
    if "spring-boot".toList.isPrefixOf d.artifact then
      ["spring-core".toList, "spring-context".toList].filterMap fun artifact =>
        (p.managedVersion frameworkGroup artifact <|> frameworkVersion d.version).map fun version =>
          ⟨frameworkGroup, artifact, version, d.scope, 1⟩
    else []
  else if d.group = frameworkGroup then
    if d.artifact = "spring-core".toList ∨ d.artifact = "spring-jcl".toList then []
    else [⟨frameworkGroup, "spring-core".toList, d.version, d.scope, 1⟩]
  else []

/-- The dependencies with `d` at the end, unless its artifact is there already in its scope. -/
def addNew (ds : List ResolvedDependency) (d : ResolvedDependency) : List ResolvedDependency :=
  if ds.any (·.sameArtifact d) then ds else ds ++ [d]

/-- All dependencies: the declared ones, then what they bring in. The first on an artifact in a
scope hides the later ones. -/
def allDependencies (p : Pom) : List ResolvedDependency :=
  (p.direct.flatMap p.broughtIn).foldl addNew p.direct

/-- The warning about a Spring Boot line that is not known. -/
def bootWarnings (p : Pom) : List Warning :=
  match p.bootVersion with
  | some boot => if (frameworkVersion boot).isNone then [.unknownBootLine boot] else []
  | none => []

/-- The dependencies of a build file resolved. -/
def resolve (p : Pom) : Resolution where
  group := p.effectiveGroup.map p.expand
  artifact := p.expand p.artifact
  version := p.effectiveVersion.map p.expand
  bootVersion := p.bootVersion
  dependencies := p.allDependencies
  warnings := p.bootWarnings ++ p.dependencies.flatMap fun d => (p.resolveDirect d).2

end Pom

end ConfigTree.Maven
