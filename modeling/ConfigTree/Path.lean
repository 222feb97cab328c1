import ConfigTree.Text.Basic

/-!
File paths with slashes between their components.
-/

namespace ConfigTree.Path

inductive Component where
  /-- The root of the file system, at the start of an absolute path. -/
  | root
  /-- A dot at the start of a relative path. -/
  | current
  /-- Two dots. -/
  | parent
  | name (text : Text)
deriving DecidableEq, Repr

/-- The component that a segment between slashes stands for: nothing and a dot stand for none. -/
def ofSegment (segment : Text) : Option Component :=
  if segment = [] ∨ segment = ['.'] then none
  else if segment = ['.', '.'] then some .parent
  else some (.name segment)

/-- The components of a path in order. -/
def components (path : Text) : List Component :=
  match path, Text.splitOn '/' path with
  | '/' :: _, segments => .root :: segments.filterMap ofSegment
  | _, ['.'] :: segments => .current :: segments.filterMap ofSegment
  | _, segments => segments.filterMap ofSegment

/-- The names among the components. -/
def names (path : Text) : List Text :=
  (components path).filterMap fun
    | .name t => some t
    | _ => none

/-- The last component, if it is a name. -/
def fileName? (path : Text) : Option Text :=
  match (components path).getLast? with
  | some (.name t) => some t
  | _ => none

/-- What follows the last dot of a name. A dot at the start opens no extension. -/
def extensionOfName (name : Text) : Option Text :=
  let pieces := Text.splitOn '.' name
  if pieces.length < 2 ∨ (pieces.length = 2 ∧ pieces.head? = some []) then none else pieces.getLast?

/-- What follows the last dot of the file name. -/
def extension? (path : Text) : Option Text := (fileName? path).bind extensionOfName

end ConfigTree.Path
