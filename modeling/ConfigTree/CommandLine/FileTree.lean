import ConfigTree.Text.Basic

/-!
Trees of files: all files in and below the directory that a program runs in. Directories are there
as far as there are files in them.
-/

namespace ConfigTree.CommandLine

/-- A file, with the names of the directories around it and its own, outermost first. -/
structure StoredFile where
  names : List Text
  /-- The text, if the bytes of the file are one. -/
  text : Option Text
deriving DecidableEq, Repr

/-- Why a file cannot be read. -/
inductive ReadProblem where
  | missing
  | isDirectory
  | notDirectory
  | notText
  /-- What else the system has to say. -/
  | other (reason : Text)
deriving DecidableEq, Repr

def ReadProblem.message : ReadProblem → Text
  | missing => "No such file or directory (os error 2)".toList
  | isDirectory => "Is a directory (os error 21)".toList
  | notDirectory => "Not a directory (os error 20)".toList
  | notText => "stream did not contain valid UTF-8".toList
  | other reason => reason

/-- What a command can see of the files: the text of a file, and the files below a directory in
order, with the names that lead there from it. -/
structure Files where
  read : Text → Except ReadProblem Text
  below : Text → Option (List StoredFile)

abbrev FileTree := List StoredFile

namespace FileTree

def file? (t : FileTree) (names : List Text) : Option StoredFile := t.find? fun f => f.names = names

/-- Whether there is a directory at the end of the names. -/
def isDirectory (t : FileTree) (names : List Text) : Bool :=
  names.isEmpty || t.any fun f => names.isPrefixOf f.names && names.length < f.names.length

/-- Where the segments of a path lead from the directory at the end of `here`. Nothing is known of
what is around the tree. -/
def walk (t : FileTree) (here : List Text) : List Text → Except ReadProblem (List Text)
  | [] => .ok here
  | segment :: segments =>
    if t.isDirectory here then
      if segment = [] ∨ segment = ['.'] then t.walk here segments
      else if segment = ['.', '.'] then
        if here = [] then .error .missing else t.walk here.dropLast segments
      else t.walk (here ++ [segment]) segments
    else .error (if (t.file? here).isSome then .notDirectory else .missing)

/-- The names that a path leads to. -/
def locate (t : FileTree) (path : Text) : Except ReadProblem (List Text) :=
  if path = [] ∨ path.head? = some '/' then .error .missing else t.walk [] (Text.splitOn '/' path)

/-- The text of the file at a path. -/
def read (t : FileTree) (path : Text) : Except ReadProblem Text := do
  let names ← t.locate path
  match t.file? names with
  | some ⟨_, some text⟩ => .ok text
  | some ⟨_, none⟩ => .error .notText
  | none => .error (if t.isDirectory names then .isDirectory else .missing)

/-- Whether one list of names comes before another, or is the same: the first names that
differ decide. -/
def namesLe : List Text → List Text → Bool
  | [], _ => true
  | _ :: _, [] => false
  | n :: ns, m :: ms =>
    match Text.compare n m with
    | .lt => true
    | .gt => false
    | .eq => namesLe ns ms

/-- The files below the directory at a path, sorted by their names. -/
def below (t : FileTree) (path : Text) : Option (List StoredFile) :=
  match t.locate path with
  | .error _ => none
  | .ok names =>
    if t.isDirectory names then
      let inside := t.filter fun f => names.isPrefixOf f.names
      some ((inside.map fun f => { f with names := f.names.drop names.length }).mergeSort
        fun f g => namesLe f.names g.names)
    else none

/-- The tree as commands see it. -/
def files (t : FileTree) : Files := ⟨t.read, t.below⟩

/-- The tree with another text in the file at a path. -/
def write (t : FileTree) (path text : Text) : FileTree :=
  match t.locate path with
  | .error _ => t
  | .ok names => t.map fun f => if f.names = names then { f with text := some text } else f

end FileTree

end ConfigTree.CommandLine
