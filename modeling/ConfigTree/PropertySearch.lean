import ConfigTree.Search

/-!
Searching for properties by their keys. The key of a value in a YAML file joins the keys of the
entries around it with dots, so that a key with dots and nested entries come to the same. Sequences
add nothing to it: the items of a sequence have the key of the entry that holds it.
-/

namespace ConfigTree

/-- The visitor that marks the values whose keys satisfy `p`, wherever they are below an entry. -/
def Yaml.markingValues (p : Text → Bool) (revision : Nat) : Yaml.Visitor
  | path, .entry e, visited =>
    match e.value with
    | .scalar s =>
      if p (Text.joinWith '.' (path ++ [e.key.text])) then
        .entry (e.withParts revision e.key (.scalar (s.withMark revision {})))
      else visited
    | _ => visited
  | path, .item i, visited =>
    match i.value with
    | .scalar s =>
      if path ≠ [] ∧ p (Text.joinWith '.' path) then
        .item (i.withValue revision (.scalar (s.withMark revision {})))
      else visited
    | _ => visited
  | _, _, visited => visited

/-- The stream with a mark on every value whose key satisfies `p`. -/
def Yaml.Stream.markByKey (p : Text → Bool) (s : Yaml.Stream) : Yaml.Stream :=
  s.visit (Yaml.markingValues p s.nextRevision)

/-- The file with a mark on every value whose key satisfies `p`. -/
def Properties.File.markByKey (p : Text → Bool) (f : Properties.File) : Properties.File :=
  f.mapEntries fun revision e => if p e.keyText then e.withValue revision (e.value.withMark revision {}) else e

/-- The file with a mark on every value whose key satisfies `p`. Other files than YAML and
properties files have no keys. -/
def SourceFile.markByKey (p : Text → Bool) (s : SourceFile) : SourceFile :=
  (s.mapProperties (·.markByKey p)).mapYaml (·.markByKey p)

end ConfigTree
