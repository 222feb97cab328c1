import ConfigTree.Source

/-!
Search hits: marking values in source files, and listing the marked values with their keys and
lines. Hits are found by going over the tree, and lines by going over its printed pieces; both meet
the marked values in the same order.
-/

namespace ConfigTree

/-- A marked value as told to the user. -/
structure SearchMatch where
  path : Text
  /-- The keys that lead to the value, with dots between them. -/
  property : Text
  value : Text
  description : Option Text
  line : Nat
deriving DecidableEq, Repr

/-- The marked scalars of a stream in printing order, each with its mark and the keys around it. -/
def Yaml.Stream.hits (s : Yaml.Stream) : List (List Text × Yaml.Scalar × Mark) :=
  s.scalars.filterMap fun (path, scalar) => scalar.mark.map fun mark => (path, scalar, mark)

/-- The entries of a properties file whose values are marked, each with its mark. -/
def Properties.File.hits (f : Properties.File) : List (Properties.Entry × Mark) :=
  f.entries.filterMap fun e => e.value.mark.map fun mark => (e, mark)

namespace SourceFile

/-- The marked values of a file in printing order. -/
def searchMatches (s : SourceFile) : List SearchMatch :=
  match s.content with
  | .yaml stream =>
    (stream.hits.zip (Piece.markedLines stream.pieces)).map fun ((path, scalar, mark), (_, line)) =>
      ⟨s.path, Text.joinWith '.' path, scalar.text, mark.description, line⟩
  | .properties file =>
    (file.hits.zip (Piece.markedLines file.pieces)).map fun ((e, mark), (_, line)) =>
      ⟨s.path, e.keyText, e.value.meaning, mark.description, line⟩
  | .text _ => []

/-- The file with a mark on every value that satisfies `p`: YAML scalars by their text, keys
included, and properties by what their values stand for. -/
def markValues (p : Text → Bool) (mark : Mark) (s : SourceFile) : SourceFile :=
  let yaml (stream : Yaml.Stream) : Yaml.Stream :=
    stream.visit <| .onScalars fun scalar =>
      if p scalar.text then scalar.withMark stream.nextRevision mark else scalar
  let properties (file : Properties.File) : Properties.File :=
    file.mapEntries fun revision e =>
      if p e.value.meaning then e.withValue revision (e.value.withMark revision mark) else e
  (s.mapYaml yaml).mapProperties properties

end SourceFile

end ConfigTree
