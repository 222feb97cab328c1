import ConfigTree.Spring.Recipes
import ConfigTree.Yaml.Walk

/-!
The search for properties with what it keeps. A run goes over all files with one searcher. It keeps
the keys of the entries that it is inside of, puts a key there when it comes to an entry, and takes
it away again when it leaves the entry; what is left there at the end of a file is there at the
start of the next.
-/

namespace ConfigTree

/-- A computation of a searcher, which keeps the keys of the entries that it is inside of, outermost
first. -/
abbrev Searching := StateM (List Text)

/-- Whether the searcher is inside an entry and its keys together satisfy `p`. -/
def Searching.atMatch (p : Text → Bool) : Searching Bool := do
  let keys ← get
  return !keys.isEmpty && p (Text.joinWith '.' keys)

/-- The walker that marks the values whose keys satisfy `p`, wherever they are below an entry. -/
def Yaml.Walker.searching (p : Text → Bool) (revision : Nat) : Walker Searching
  | inside, .entry e => do
    modify (· ++ [e.key.text])
    let answer ← match e.value with
      | .scalar s => do
        if ← Searching.atMatch p then
          pure (.entry (e.withParts revision e.key (.scalar (s.withMark revision {}))))
        else inside
      | _ => inside
    modify List.dropLast
    return answer
  | inside, .item i =>
    match i.value with
    | .scalar s => do
      if ← Searching.atMatch p then
        return .item (i.withValue revision (.scalar (s.withMark revision {})))
      else inside
    | _ => inside
  | inside, _ => inside

namespace SourceFile

/-- The file with its YAML stream changed by a computation. -/
def mapYamlM {m : Type → Type} [Monad m] (change : Yaml.Stream → m Yaml.Stream) (s : SourceFile) :
    m SourceFile :=
  match s.content with
  | .yaml stream => do
    let after ← change stream
    return s.mapYaml fun _ => after
  | _ => return s

/-- The file as searched: first as a properties file, then as a YAML file. -/
def searchByKey (p : Text → Bool) (s : SourceFile) : Searching SourceFile :=
  (s.mapProperties (·.markByKey p)).mapYamlM fun stream =>
    stream.walk (.searching p stream.nextRevision)

end SourceFile

/-- The changes that a visit makes to the files, one file after the other. -/
def Recipe.changesM {m : Type → Type} [Monad m] (visit : SourceFile → m SourceFile) :
    List SourceFile → m (List FileChange)
  | [] => return []
  | s :: files => do
    let after ← visit s
    let changes ← changesM visit files
    return if after.same s then changes else ⟨s, after⟩ :: changes

namespace Spring.PropertyQuery

/-- The file as searched for what a query asks for, if it has the configuration of an
application. -/
def searchConfig (q : PropertyQuery) (s : SourceFile) : Searching SourceFile :=
  if applicationConfig.holds s then s.searchByKey q.matcher.isMatch else return s

/-- The changes that a searcher for a query makes to the files. -/
def searchAll (q : PropertyQuery) (files : List SourceFile) : Searching (List FileChange) :=
  Recipe.changesM q.searchConfig files

end Spring.PropertyQuery

end ConfigTree
