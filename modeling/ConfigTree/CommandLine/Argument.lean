import ConfigTree.Text.Basic

/-!
Command line arguments: a command by its name, and options by long names or by single letters.
-/

namespace ConfigTree.CommandLine

/-- What follows an option. -/
inductive ValueKind where
  /-- Nothing: the option itself says all. -/
  | flag
  | text
  /-- A path, which is not empty. -/
  | path
deriving DecidableEq, Repr

/-- An option that a command takes at most once. -/
structure Opt where
  /-- The name after two dashes. -/
  name : Text
  /-- The letter after one dash. -/
  letter : Option Char := none
  kind : ValueKind
  required : Bool := false
  /-- The value when the option is not given. -/
  default : Option Text := none
  about : String

/-- The options given, each with its value. -/
abbrev Settings := List (Text × Text)

/-- Why options are not read to their end. -/
inductive Stop where
  /-- They make no sense. -/
  | misuse
  /-- Help is asked for. -/
  | help
deriving DecidableEq, Repr

namespace Settings

/-- Whether the option is given. -/
def has (s : Settings) (o : Opt) : Bool := s.any fun given => given.1 = o.name

def value? (s : Settings) (o : Opt) : Option Text :=
  ((s.find? fun given => given.1 = o.name).map Prod.snd).or o.default

/-- The value of an option that is required or has a default. -/
def value (s : Settings) (o : Opt) : Text := (s.value? o).getD []

/-- The settings with one more option, if it has not been given before and its value is possible. -/
def set (s : Settings) (o : Opt) (value : Text) : Except Stop Settings :=
  if s.has o ∨ (o.kind = .path ∧ value = []) then .error .misuse else .ok (s ++ [(o.name, value)])

end Settings

/-- Whether an argument cannot be the value of the option before it: it begins with a dash
and goes on. -/
def looksLikeOption : Text → Bool
  | '-' :: _ :: _ => true
  | _ => false

/-- Sets an option whose value stands in the next argument. -/
def setFromNext (o : Opt) (s : Settings) : List Text → Except Stop (Settings × List Text)
  | [] => .error .misuse
  | value :: rest =>
    if looksLikeOption value then .error .misuse else (s.set o value).map fun s => (s, rest)

/-- Reads an option given by its name, where `body` follows the two dashes: the value follows an
equals sign or stands in the next argument. -/
def readLong (opts : List Opt) (s : Settings) (body : Text) (rest : List Text) :
    Except Stop (Settings × List Text) :=
  let name := body.takeWhile (· != '=')
  let attached := if name.length < body.length then some (body.drop (name.length + 1)) else none
  if name = "help".toList then .error (if attached.isSome then .misuse else .help)
  else
    match opts.find? fun o => o.name = name, attached with
    | none, _ => .error .misuse
    | some o, some value => if o.kind = .flag then .error .misuse else (s.set o value).map fun s => (s, rest)
    | some o, none => if o.kind = .flag then (s.set o []).map fun s => (s, rest) else setFromNext o s rest

/-- Reads an option given by its letter: the value follows the letter, after an equals sign if need
be, or stands in the next argument. -/
def readShort (opts : List Opt) (s : Settings) (letter : Char) (attached : Text) (rest : List Text) :
    Except Stop (Settings × List Text) :=
  if letter = 'h' then .error .help
  else
    match opts.find? fun o => o.letter = some letter with
    | none => .error .misuse
    | some o =>
      match attached with
      | [] => setFromNext o s rest
      | '=' :: value => (s.set o value).map fun s => (s, rest)
      | value => (s.set o value).map fun s => (s, rest)

/-- Reads all options of a command. -/
def readOptionsFrom (opts : List Opt) : Nat → Settings → List Text → Except Stop Settings
  | 0, _, _ => .error .misuse
  | _, s, [] => .ok s
  | steps + 1, s, arg :: rest =>
    match arg with
    | ['-', '-'] => if rest = [] then .ok s else .error .misuse
    | '-' :: '-' :: body => do
      let (s, rest) ← readLong opts s body rest
      readOptionsFrom opts steps s rest
    | '-' :: letter :: attached => do
      let (s, rest) ← readShort opts s letter attached rest
      readOptionsFrom opts steps s rest
    | _ => .error .misuse

/-- Reads all options of a command, of which the required ones have to be there. -/
def readOptions (opts : List Opt) (args : List Text) : Except Stop Settings := do
  let s ← readOptionsFrom opts (args.length + 1) [] args
  if opts.all fun o => !o.required || s.has o then .ok s else .error .misuse

end ConfigTree.CommandLine
