import ConfigTree.Maven.Selector
import ConfigTree.Precondition
import ConfigTree.PropertySearch
import ConfigTree.Recipe
import ConfigTree.Spring.KeyMatcher

/-!
Recipes that mark the values of properties in the configuration of Spring applications: in any
project, or in those that use certain versions of the Spring Framework.
-/

namespace ConfigTree.Spring

/-- What properties to look for. -/
structure PropertyQuery where
  key : Text
  /-- Whether keys are compared under relaxed binding, if that is said. -/
  relaxed : Option Bool := none
deriving DecidableEq, Repr

namespace PropertyQuery

/-- Keys are compared under relaxed binding unless it is said otherwise. -/
def isRelaxed (q : PropertyQuery) : Bool := q.relaxed.getD true

def matcher (q : PropertyQuery) : KeyMatcher := .ofKey q.key q.isRelaxed

/-- The file with a mark on every value that the query asks for. -/
def mark (q : PropertyQuery) (s : SourceFile) : SourceFile :=
  let matcher := q.matcher
  s.markByKey matcher.isMatch

/-- A query needs a key. -/
def problem? (q : PropertyQuery) : Option RecipeProblem := if q.key.isBlank then some .emptyKey else none

end PropertyQuery

/-- The paths of files with the configuration of an application. -/
def applicationFiles : Glob.Pattern :=
  .leadingDirectories :: "application".toList.map Glob.Token.literal ++ [.star]

example : Glob.parse? "**/application*".toList = some applicationFiles := by rfl

/-- The condition on files with the configuration of an application as it is shipped. -/
def applicationConfig : Precondition := .both (.sourceSet "main".toList) (.path applicationFiles)

/-- The file with marks on what a query asks for, if it has the configuration of an application. -/
def PropertyQuery.markConfig (q : PropertyQuery) (s : SourceFile) : SourceFile :=
  if applicationConfig.holds s then q.mark s else s

/-- Marks the properties of an application. -/
def findProperty (q : PropertyQuery) : Recipe Unit :=
  .ofVisit "Find Spring properties".toList
    "Find Spring properties in YAML or properties files, and only in the main source set.".toList
    q.problem? q.markConfig

/-- Whether a file is a build file of a project that runs with a selected version of
the framework. -/
def usesFramework (versions : Text) (s : SourceFile) : Bool :=
  match s.markers.resolution?, Maven.Selector.parse? versions with
  | some r, some selector =>
    (r.findDependencies Maven.frameworkGroup "spring-core".toList .runtime).any fun d =>
      selector.accepts none d.version
  | _, _ => false

/-- What the resolution of a build file warns of. -/
def resolutionWarnings (s : SourceFile) : List Text :=
  match s.markers.resolution? with
  | some r => r.warnings.map fun w => s.path ++ ": ".toList ++ w.message
  | none => []

/-- Marks the properties of an application in projects that run with one of the given versions of
the framework. One build file that says so is enough for all files. -/
def findPropertyForVersions (versions : Text) (q : PropertyQuery) : Recipe Bool where
  name := "Find Spring properties for Spring Framework versions".toList
  description := ("Find Spring properties in YAML or properties files of the main source set, " ++
    "in projects using a matching Spring Framework version.").toList
  problem? := q.problem? <|> match Maven.Selector.parse versions with
    | .ok _ => none
    | .error p => some (.selector p)
  start := false
  scan known s := (known || usesFramework versions s, resolutionWarnings s)
  visit known s := if known then q.markConfig s else s

end ConfigTree.Spring
