import ConfigTree.CommandLine.Argument

/-!
The commands and their options, and how a command is read from the arguments of the program.
-/

namespace ConfigTree.CommandLine

inductive Command where
  /-- Finds a property in a project. -/
  | find (root property : Text) (exact : Bool) (versions : Option Text) (json : Bool)
  /-- Runs a recipe described in a file. -/
  | run (recipe root : Text) (json : Bool)
  /-- Tells a value of a YAML file. -/
  | get (input path : Text)
  /-- Sets a value of a YAML file. -/
  | set (input path value : Text) (write : Bool)
  /-- Checks a file. -/
  | validate (input : Text)
deriving DecidableEq, Repr

/-- A command, and whether JSON is to be indented. -/
structure Invocation where
  command : Command
  pretty : Bool
deriving DecidableEq, Repr

namespace Command

/-- The file that a command reads, if it reads one by its path. -/
def input? : Command → Option Text
  | find .. => none
  | run recipe _ _ => some recipe
  | get input _ => some input
  | set input _ _ _ => some input
  | validate input => some input

/-- The root of the project that a command looks into, if it looks into one. -/
def root? : Command → Option Text
  | find root _ _ _ _ => some root
  | run _ root _ => some root
  | _ => none

/-! ### Options -/

def rootOption : Opt where
  name := "root".toList
  kind := .path
  default := some ['.']
  about := "Project root"

def propertyOption : Opt where
  name := "property".toList
  kind := .text
  required := true
  about := "Property key, e.g. spring.application.name (globs allowed)"

def exactOption : Opt where
  name := "exact".toList
  kind := .flag
  about := "Match the key exactly instead of with relaxed binding"

def versionRangeOption : Opt where
  name := "version-range".toList
  kind := .text
  about := "Only search projects on a matching Spring Framework version (e.g. 5.x)"

def jsonOption : Opt where
  name := "json".toList
  kind := .flag
  about := "Output as JSON"

def recipeOption : Opt where
  name := "recipe".toList
  kind := .path
  required := true
  about := "Recipe file"

def inputOption : Opt where
  name := "input".toList
  letter := some 'i'
  kind := .path
  required := true
  about := "Input file"

/-- The path of a value in a file. `about` explains it. -/
def pathOption (about : String) : Opt where
  name := "path".toList
  kind := .text
  required := true
  about := about

def pathToGet : Opt := pathOption "Dotted key path, e.g. spring.application.name"

def pathToSet : Opt := pathOption "Dotted key path, e.g. server.port"

def valueOption : Opt where
  name := "value".toList
  kind := .text
  required := true
  about := "New value"

def writeOption : Opt where
  name := "write".toList
  kind := .flag
  about := "Write the file instead of printing a diff"

def prettyOption : Opt where
  name := "pretty".toList
  kind := .flag
  about := "Pretty-print JSON output"

/-! ### Commands by their names -/

/-- A kind of command: its name, its own options, and how they make a command. -/
structure Kind where
  name : Text
  about : String
  ownOptions : List Opt
  make : Settings → Command

/-- The options of a command, and last the one that all commands take. -/
def Kind.options (k : Kind) : List Opt := k.ownOptions ++ [prettyOption]

def kinds : List Kind := [
  { name := "find".toList
    about := "Find a Spring property in a project's application configuration"
    ownOptions := [rootOption, propertyOption, exactOption, versionRangeOption, jsonOption]
    make := fun s => .find (s.value rootOption) (s.value propertyOption) (s.has exactOption)
      (s.value? versionRangeOption) (s.has jsonOption) },
  { name := "run".toList
    about := "Run a recipe described by a JSON file"
    ownOptions := [recipeOption, rootOption, jsonOption]
    make := fun s => .run (s.value recipeOption) (s.value rootOption) (s.has jsonOption) },
  { name := "get".toList
    about := "Print the value at a dotted key path of a YAML file"
    ownOptions := [inputOption, pathToGet]
    make := fun s => .get (s.value inputOption) (s.value pathToGet) },
  { name := "set".toList
    about := "Set the value at a dotted key path of a YAML file"
    ownOptions := [inputOption, pathToSet, valueOption, writeOption]
    make := fun s => .set (s.value inputOption) (s.value pathToSet) (s.value valueOption)
      (s.has writeOption) },
  { name := "validate".toList
    about := "Check that a YAML or properties file parses"
    ownOptions := [inputOption]
    make := fun s => .validate (s.value inputOption) }]

def kind? (name : Text) : Option Kind := kinds.find? fun k => k.name = name

end Command

/-! ### Arguments of the program -/

/-- What help is asked for. -/
inductive Topic where
  | program
  | command (kind : Command.Kind)
  /-- The command that tells help. -/
  | help

/-- What the arguments of the program ask for. -/
inductive Request where
  | run (invocation : Invocation)
  | help (topic : Topic)
  /-- Nothing that makes sense. -/
  | misuse

namespace Request

/-- Reads a command and its options. -/
def ofCommand (pretty : Bool) (k : Command.Kind) (args : List Text) : Request :=
  match readOptions k.options args with
  | .ok s => .run ⟨k.make s, pretty || s.has Command.prettyOption⟩
  | .error .help => .help (.command k)
  | .error .misuse => .misuse

/-- Reads the name of what help is asked for, of which there is at most one. -/
def ofHelp : List Text → Request
  | [] => .help .program
  | [name] =>
    if name = "help".toList then .help .help
    else match Command.kind? name with
      | some k => .help (.command k)
      | none => .misuse
  | _ => .misuse

/-- Reads the arguments of the program. Indentation may be asked for before the command
or after it. -/
def parseFrom (pretty : Bool) : List Text → Request
  | [] => .misuse
  | arg :: rest =>
    match arg with
    | '-' :: '-' :: body =>
      if body = "help".toList then .help .program
      else if body = Command.prettyOption.name ∧ ¬pretty then parseFrom true rest
      else .misuse
    | '-' :: 'h' :: _ => .help .program
    | _ =>
      if arg = "help".toList then ofHelp rest
      else match Command.kind? arg with
        | some k => ofCommand pretty k rest
        | none => .misuse

/-- What the arguments of the program ask for. -/
def parse (args : List Text) : Request := parseFrom false args

end Request

end ConfigTree.CommandLine
