import ConfigTree.CommandLine.Help
import ConfigTree.CommandLine.Project
import ConfigTree.CommandLine.Report
import ConfigTree.Spring.RecipeSpec
import ConfigTree.Text.Quoted
import ConfigTree.Yaml.Edit

/-!
Running commands: what each of them makes of the files it sees.
-/

namespace ConfigTree.CommandLine

/-- What a program leaves behind. -/
structure Outcome where
  code : Nat
  output : Text := []
  errors : Text := []
  /-- A file to write: its path and its new text. -/
  written : Option (Text × Text) := none
deriving DecidableEq, Repr

/-- Why a command failed, and what lies behind it. -/
structure CommandFailure where
  summary : Text
  cause : Option Text := none
deriving DecidableEq, Repr

namespace CommandFailure

/-- A text with each line indented. -/
def indented (t : Text) : Text :=
  (Text.splitOn '\n' t).flatMap fun line => '\n' :: List.replicate 4 ' ' ++ line

def message (f : CommandFailure) : Text :=
  "Error: ".toList ++ f.summary ++
    (match f.cause with
      | some c => "\n\nCaused by:".toList ++ indented c
      | none => []) ++ ['\n']

end CommandFailure

variable {α : Type}

/-- Reads a file. -/
def Files.open (files : Files) (path : Text) : Except CommandFailure Text :=
  (files.read path).mapError fun p => ⟨"Failed to read ".toList ++ Text.quoted path, some p.message⟩

/-- Tells that a file could not be parsed. -/
def unparsed (path cause : Text) : CommandFailure :=
  ⟨"Failed to parse ".toList ++ Text.quoted path, some cause⟩

/-- Reads a YAML file. -/
def Files.openYaml (files : Files) (path : Text) : Except CommandFailure Yaml.Stream := do
  let text ← files.open path
  (Yaml.parse text).mapError fun e => unparsed path (e.message (String.ofList path)).toList

/-- Loads the project at `root`. -/
def Files.openProject (files : Files) (root : Text) : Except CommandFailure (List SourceFile) :=
  match files.below root with
  | some fs => .ok (loadProject fs)
  | none => .error ⟨root ++ " is not a directory".toList, none⟩

/-- Runs a recipe over a project. -/
def runRecipe (spec : Spring.RecipeSpec) (sources : List SourceFile) : Except CommandFailure RecipeRun :=
  (spec.run sources).mapError fun p => ⟨"Failed to run ".toList ++ spec.displayName, some p.message⟩

/-- Tells that there is no value at a dotted path. -/
def noValue (path input : Text) : CommandFailure :=
  ⟨"No value at ".toList ++ path ++ " in ".toList ++ Text.quoted input, none⟩

/-- The recipe that finds a property, in all projects or in those that use certain versions. -/
def recipeFor (property : Text) (exact : Bool) (versions : Option Text) : Spring.RecipeSpec :=
  let query : Spring.PropertyQuery := ⟨property, if exact then some false else none⟩
  match versions with
  | some vs => .findPropertyForVersions vs query
  | none => .findProperty query

namespace Command

def runFind (files : Files) (pretty : Bool) (root property : Text) (exact : Bool) (versions : Option Text)
    (json : Bool) : Except CommandFailure Outcome := do
  let sources ← files.openProject root
  let report := Report.ofRun (← runRecipe (recipeFor property exact versions) sources)
  .ok { code := 0, output := if json then report.jsonText pretty else report.text }

def runRun (files : Files) (pretty : Bool) (recipe root : Text) (json : Bool) :
    Except CommandFailure Outcome := do
  let described ← files.open recipe
  let some spec := Spring.RecipeSpec.parse? described
    | .error (unparsed recipe "invalid recipe: not a recipe".toList)
  let sources ← files.openProject root
  let run ← runRecipe spec sources
  if json then .ok { code := 0, output := (Report.ofRun run).jsonText pretty }
  else .ok {
    code := 0
    output := run.changes.flatMap FileChange.diff
    errors := run.warnings.flatMap fun w => "warning: ".toList ++ w ++ ['\n'] }

def runGet (files : Files) (input path : Text) : Except CommandFailure Outcome := do
  let stream ← files.openYaml input
  match stream.textAt? path with
  | some value => .ok { code := 0, output := value ++ ['\n'] }
  | none => .error (noValue path input)

def runSet (files : Files) (input path value : Text) (write : Bool) : Except CommandFailure Outcome := do
  let stream ← files.openYaml input
  match stream.setTextAt? path value with
  | none => .error (noValue path input)
  | some edited =>
    if write then .ok { code := 0, written := some (input, edited.print) }
    else .ok { code := 0, output := Diff.unified input stream.print edited.print }

def runValidate (files : Files) (input : Text) : Except CommandFailure Outcome := do
  let text ← files.open input
  let source ← (SourceFile.parse 0 input text).mapError fun e =>
    unparsed input (e.message (String.ofList input)).toList
  if source.print = text then
    .ok { code := 0, output := "Valid ".toList ++ source.content.kind.toList ++ " file: ".toList ++ input ++ ['\n'] }
  else .error ⟨Text.quoted input ++ " does not print back to its original text".toList, none⟩

/-- What a command makes of the files, or why it fails. -/
def outcome (files : Files) (pretty : Bool) : Command → Except CommandFailure Outcome
  | find root property exact versions json => runFind files pretty root property exact versions json
  | run recipe root json => runRun files pretty recipe root json
  | get input path => runGet files input path
  | set input path value write => runSet files input path value write
  | validate input => runValidate files input

end Command

/-- What a program of the given name makes of the files when it is called with `args`. -/
def run (name : Text) (files : Files) (args : List Text) : Outcome :=
  match Request.parse args with
  | .misuse => { code := 2, errors := Topic.program.usage name }
  | .help topic => { code := 0, output := topic.text name }
  | .run ⟨command, pretty⟩ =>
    match command.outcome files pretty with
    | .ok outcome => outcome
    | .error f => { code := 1, errors := f.message }

end ConfigTree.CommandLine
