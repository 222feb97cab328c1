import ConfigTree.Glob.Parse
import ConfigTree.Source

/-!
Conditions on source files that decide whether a recipe looks at them.
-/

namespace ConfigTree

/-- A condition on source files. -/
inductive Precondition where
  /-- The file belongs to the source set with this name. -/
  | sourceSet (name : Text)
  /-- The path of the file matches the pattern. -/
  | path (pattern : Glob.Pattern)
  | both (first second : Precondition)

/-- Whether a file meets a condition. -/
def Precondition.holds (s : SourceFile) : Precondition → Bool
  | sourceSet name => s.markers.sourceSet? == some name
  | path pattern => pattern.isMatch true s.path
  | both first second => first.holds s && second.holds s

end ConfigTree
