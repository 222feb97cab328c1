import ConfigTree.Json.Value
import ConfigTree.Recipe
import ConfigTree.Search

/-!
What a search has found, for readers and for programs.
-/

namespace ConfigTree.CommandLine

/-- The values that a recipe has marked and what it warns of. -/
structure Report where
  found : List SearchMatch
  warnings : List Text
deriving DecidableEq, Repr

namespace Report

def ofRun (r : RecipeRun) : Report := ⟨r.changes.flatMap (·.after.searchMatches), r.warnings⟩

/-- One line for each value: where it is, its key, and the value itself. -/
def text (r : Report) : Text :=
  r.found.flatMap fun m =>
    m.path ++ ':' :: Text.ofNat m.line ++ ": ".toList ++ m.property ++ ": ".toList ++ m.value ++ ['\n']

def matchJson (m : SearchMatch) : Json.Value :=
  .object ([("source_path".toList, .string m.path), ("property".toList, .string m.property),
      ("value".toList, .string m.value)] ++
    (m.description.map fun d => ("description".toList, Json.Value.string d)).toList ++
    [("line".toList, .ofNat m.line)])

/-- The report as JSON. Warnings are left out when there are none. -/
def toJson (r : Report) : Json.Value :=
  .object (("matches".toList, .array (r.found.map matchJson)) ::
    if r.warnings.isEmpty then [] else [("warnings".toList, .array (r.warnings.map .string))])

/-- The report as JSON on lines of its own, indented or not. -/
def jsonText (r : Report) (pretty : Bool) : Text :=
  (if pretty then r.toJson.pretty 0 else r.toJson.compact) ++ ['\n']

end Report

end ConfigTree.CommandLine
