import ConfigTree.CommandLine.Command

/-!
Help texts: what the program and each of its commands do, how they are called, and lists of what
they take, each set in two columns.
-/

namespace ConfigTree.CommandLine

/-! ### Lists -/

/-- An entry of a list: a term, what stands before it, and what is to be said about it. All margins
of a list are equally wide. -/
structure HelpEntry where
  margin : Text
  term : Text
  about : Text

namespace HelpEntry

/-- The list, in lines: the second column begins two places after the widest term. -/
def list (entries : List HelpEntry) : Text :=
  let width := entries.foldl (fun n e => max n e.term.length) 0
  entries.flatMap fun e =>
    e.margin ++ e.term ++ List.replicate (width - e.term.length + 2) ' ' ++ e.about ++ ['\n']

def ofName (name : Text) (about : String) : HelpEntry := ⟨"  ".toList, name, about.toList⟩

/-- The name of the value of an option. -/
def valueName (o : Opt) : Text := (Text.asciiUpper o.name).map fun c => if c = '-' then '_' else c

/-- An option by its name, with its value. -/
def optionTerm (o : Opt) : Text :=
  "--".toList ++ o.name ++ if o.kind = .flag then [] else " <".toList ++ valueName o ++ ['>']

def ofOption (o : Opt) : HelpEntry where
  margin := match o.letter with
    | some c => "  -".toList ++ [c, ',', ' ']
    | none => List.replicate 6 ' '
  term := optionTerm o
  about := o.about.toList ++
    match o.default with
    | some value => " [default: ".toList ++ value ++ [']']
    | none => []

/-- The option that every command has. -/
def helpOption : Opt where
  name := "help".toList
  letter := some 'h'
  kind := .flag
  about := "Print help"

/-- The options, and the one for help. -/
def options (opts : List Opt) : Text := "\nOptions:\n".toList ++ list ((opts ++ [helpOption]).map ofOption)

end HelpEntry

/-! ### Topics -/

namespace Topic

/-- What the command that tells help does. -/
def aboutHelp : String := "Print this message or the help of the given subcommand(s)"

def about : Topic → String
  | program => "Read, edit, and search Spring configuration files"
  | command k => k.about
  | help => aboutHelp

/-- How a program of the given name is called. -/
def call (name : Text) : Topic → Text
  | program => name ++ " [OPTIONS] <COMMAND>".toList
  | command k => name ++ ' ' :: k.name ++ " [OPTIONS]".toList ++
      (k.options.filter (·.required)).flatMap fun o => ' ' :: HelpEntry.optionTerm o
  | help => name ++ " help [COMMAND]...".toList

def usage (name : Text) (topic : Topic) : Text := "Usage: ".toList ++ topic.call name ++ ['\n']

/-- What can be given in a call. -/
def lists : Topic → Text
  | program =>
    "\nCommands:\n".toList ++
      HelpEntry.list (Command.kinds.map (fun k => .ofName k.name k.about) ++ [.ofName "help".toList aboutHelp]) ++
      HelpEntry.options [Command.prettyOption]
  | command k => HelpEntry.options k.options
  | help =>
    "\nArguments:\n".toList ++
      HelpEntry.list [.ofName "[COMMAND]...".toList "Print help for the subcommand(s)"]

/-- The help text for a program of the given name. -/
def text (name : Text) (topic : Topic) : Text :=
  topic.about.toList ++ "\n\n".toList ++ topic.usage name ++ topic.lists

end Topic

end ConfigTree.CommandLine
