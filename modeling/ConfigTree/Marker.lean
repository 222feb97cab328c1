import ConfigTree.Mark
import ConfigTree.Maven.Resolution
import ConfigTree.Path

/-!
Markers: what is known of a file beyond its text.
-/

namespace ConfigTree

inductive Marker where
  /-- The file belongs to the source set with this name. -/
  | sourceSet (name : Text)
  /-- A search has found the file. -/
  | found (mark : Mark)
  /-- The file is a build file with these dependencies. -/
  | resolution (resolution : Maven.Resolution)
deriving DecidableEq, Repr

/-- Markers in the order in which they were added. -/
abbrev Markers := List Marker

namespace Markers

/-- The name of the first source set. -/
def sourceSet? (ms : Markers) : Option Text :=
  ms.findSome? fun
    | .sourceSet name => some name
    | _ => none

/-- The first search hit. -/
def mark? (ms : Markers) : Option Mark :=
  ms.findSome? fun
    | .found mark => some mark
    | _ => none

/-- The first resolution. -/
def resolution? (ms : Markers) : Option Maven.Resolution :=
  ms.findSome? fun
    | .resolution r => some r
    | _ => none

end Markers

/-- The source set that names lead into: that of the last `src` among them, unless fewer than two
names follow it. -/
def sourceSetOfNames : List Text → Option Text
  | [] => none
  | name :: names =>
    if "src".toList ∈ names then sourceSetOfNames names
    else if name = "src".toList then
      match names with
      | set :: _ :: _ => some set
      | _ => none
    else sourceSetOfNames names

/-- The source set that a file belongs to by its path. -/
def sourceSetOfPath (path : Text) : Option Text := sourceSetOfNames (Path.names path)

end ConfigTree
