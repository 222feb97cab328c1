import ConfigTree.Diff.Unified
import ConfigTree.Source

/-!
Recipes: named changes to a set of files. A recipe first scans all files, which may come to bear
on what it does to any of them, and then visits each file once. A file that is still the node it
was is unchanged.
-/

namespace ConfigTree

/-- What can be wrong with the options of a recipe. -/
inductive RecipeProblem where
  | emptyKey
  | selector (problem : Maven.Problem)
deriving DecidableEq, Repr

namespace RecipeProblem

def reason : RecipeProblem → Text
  | emptyKey => "propertyKey must not be empty".toList
  | selector p => p.message

def message (p : RecipeProblem) : Text := "invalid recipe: ".toList ++ p.reason

end RecipeProblem

/-- A recipe whose scan gathers an `α`. -/
structure Recipe (α : Type) where
  name : Text
  description : Text
  /-- What is wrong with the options, if anything is. -/
  problem? : Option RecipeProblem
  /-- What is known before the first file is scanned. -/
  start : α
  /-- What is known after a file, and what to warn of. -/
  scan : α → SourceFile → α × List Text
  /-- The file as changed, given what is known of all files. -/
  visit : α → SourceFile → SourceFile

/-- A file before and after a recipe. -/
structure FileChange where
  before : SourceFile
  after : SourceFile

/-- The change as a unified diff. -/
def FileChange.diff (c : FileChange) : Text := Diff.unified c.after.path c.before.print c.after.print

/-- What a recipe did to a set of files. -/
structure RecipeRun where
  changes : List FileChange
  warnings : List Text

/-- All files after the run, changed or not, in the order they came in. -/
def RecipeRun.apply (r : RecipeRun) (files : List SourceFile) : List SourceFile :=
  files.map fun s =>
    match r.changes.find? fun c => c.before.same s with
    | some c => c.after
    | none => s

namespace Recipe

variable {α : Type}

/-- What is known after some files, given what is known before them, and all warnings. -/
def scanAll (r : Recipe α) (known : α) : List SourceFile → α × List Text
  | [] => (known, [])
  | s :: files =>
    let (known, warnings) := r.scan known s
    let (known, more) := r.scanAll known files
    (known, warnings ++ more)

/-- The changes that a visit makes to the files, for those that it changes. -/
def changes (visit : SourceFile → SourceFile) (files : List SourceFile) : List FileChange :=
  files.filterMap fun s =>
    let after := visit s
    if after.same s then none else some ⟨s, after⟩

/-- Runs a recipe over files, unless its options are wrong. -/
def run (r : Recipe α) (files : List SourceFile) : Except RecipeProblem RecipeRun :=
  match r.problem? with
  | some p => .error p
  | none =>
    let (known, warnings) := r.scanAll r.start files
    .ok ⟨changes (r.visit known) files, warnings⟩

/-- The recipe that does to each file by itself what `visit` does. -/
def ofVisit (name description : Text) (problem? : Option RecipeProblem) (visit : SourceFile → SourceFile) :
    Recipe Unit where
  name
  description
  problem?
  start := ()
  scan _ _ := ((), [])
  visit _ := visit

end Recipe

end ConfigTree
