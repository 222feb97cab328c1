import ConfigTree.Text.Numeral

/-!
XML as a sequence of events: elements that open and close, and the text between them. Comments,
processing instructions, character data sections, document type declarations and elements that close
at once leave no event. Attributes are passed over.
-/

namespace ConfigTree.Xml

/-- An element opens or closes, or text stands between two pieces of markup. Names are without their
namespace. -/
inductive Event where
  | opened (name : String)
  | closed (name : String)
  | text (text : Text)
deriving DecidableEq, Repr

def isSpace (c : Char) : Bool := c == ' ' || c == '\t' || c == '\r' || c == '\n'

/-! ### Text -/

/-- The character that an entity or a character reference stands for. -/
def reference? (name : Text) : Option Char :=
  match name with
  | ['l', 't'] => some '<'
  | ['g', 't'] => some '>'
  | ['a', 'm', 'p'] => some '&'
  | ['a', 'p', 'o', 's'] => some '\''
  | ['q', 'u', 'o', 't'] => some '"'
  | '#' :: 'x' :: hex => (Text.digits? 16 hex).bind char?
  | '#' :: digits => (Text.digits? 10 digits).bind char?
  | _ => none
where
  /-- The character with a number. Zero is none. -/
  char? (n : Nat) : Option Char := if n ≠ 0 ∧ n.isValidChar then some (Char.ofNat n) else none

/-- The text with references replaced by their characters. `name` is what has been read of a
reference, last character first, if one is open. -/
def resolveFrom (name : Option Text) : Text → Option Text
  | [] => if name.isNone then some [] else none
  | c :: cs =>
    match name with
    | none => if c = '&' then resolveFrom (some []) cs else (resolveFrom none cs).map (c :: ·)
    | some name =>
      if c = '&' then none
      else if c = ';' then do
        let d ← reference? name.reverse
        let rest ← resolveFrom none cs
        some (d :: rest)
      else resolveFrom (some (c :: name)) cs

/-- The text with references replaced by their characters, unless one of them stands for nothing. -/
def resolve? (t : Text) : Option Text := resolveFrom none t

/-- The event for a run of characters between markup, white space around it aside: none
for nothing. -/
def textEvents? (run : Text) : Option (List Event) :=
  match Text.trimWhile isSpace run with
  | [] => some []
  | t => (resolve? t).map fun t => [.text t]

/-! ### Markup -/

/-- What stands before the angle bracket that ends a tag, and what follows it. Brackets between
quotes end nothing; `quote` is the quote that is open. -/
def scanTag (quote : Option Char) : Text → Option (Text × Text)
  | [] => none
  | c :: cs =>
    let next := match quote with
      | none => if c = '"' ∨ c = '\'' then some c else none
      | some q => if c = q then none else some q
    if quote = none ∧ c = '>' then some ([], cs)
    else (scanTag next cs).map fun (tag, rest) => (c :: tag, rest)

/-- What stands before the angle bracket that ends a declaration, and what follows it. Brackets
inside come in pairs; `depth` of them are open. -/
def scanDeclaration (depth : Int) : Text → Option (Text × Text)
  | [] => none
  | c :: cs =>
    if c = '>' ∧ depth = 0 then some ([], cs)
    else
      let depth := if c = '<' then depth + 1 else if c = '>' then depth - 1 else depth
      (scanDeclaration depth cs).map fun (inside, rest) => (c :: inside, rest)

/-- What follows a document type declaration, given what stands between its opening bracket and mark
and the end of the text. It has to name a type. -/
def afterDoctype? (t : Text) : Option Text := do
  let (inside, rest) ← scanDeclaration 0 t
  if Text.asciiUpper (inside.take 7) = "DOCTYPE".toList ∧ (inside.drop 7).any (!isSpace ·) then some rest
  else none

/-- What follows the markup that begins with an exclamation mark: a comment, a section of character
data or a document type. -/
def afterDeclaration? (t : Text) : Option Text :=
  match t with
  | '-' :: '-' :: rest => (Text.cutAt "-->".toList rest).map Prod.snd
  | '[' :: rest =>
    if "CDATA[".toList.isPrefixOf rest then (Text.cutAt "]]>".toList (rest.drop 6)).map Prod.snd else none
  | c :: _ => if c = 'D' ∨ c = 'd' then afterDoctype? t else none
  | [] => none

/-- What follows a processing instruction. -/
def afterInstruction? (t : Text) : Option Text :=
  if t.head? = some '>' then none else (Text.cutAt "?>".toList t).map Prod.snd

/-- The name without its namespace. -/
def localName (name : Text) : String :=
  String.ofList <| match Text.cutAt [':'] name with
    | some (_, name) => name
    | none => name

/-- The name in a closing tag. White space may follow it. -/
def closingName (tag : Text) : Text := if tag.all isSpace then tag else Text.trimEndWhile isSpace tag

/-- The events of a text in which the elements named `nesting` are open, the innermost first.
Elements close in the order in which they opened; those open at the end are left open. -/
def readEvents : Nat → List Text → Text → Option (List Event)
  | 0, _, _ => none
  | steps + 1, nesting, t => do
    let (run, rest) := Text.span (· != '<') t
    let texts ← textEvents? run
    match rest with
    | [] => some texts
    | _ :: '!' :: rest =>
      let rest ← afterDeclaration? rest
      let events ← readEvents steps nesting rest
      some (texts ++ events)
    | _ :: '?' :: rest =>
      let rest ← afterInstruction? rest
      let events ← readEvents steps nesting rest
      some (texts ++ events)
    | _ :: '/' :: rest =>
      let (tag, rest) ← scanTag none rest
      match nesting with
      | [] => none
      | name :: nesting =>
        if closingName tag = name then
          let events ← readEvents steps nesting rest
          some (texts ++ .closed (localName name) :: events)
        else none
    | _ :: rest =>
      let (tag, rest) ← scanTag none rest
      if tag.getLast? = some '/' then
        let events ← readEvents steps nesting rest
        some (texts ++ events)
      else
        let name := tag.takeWhile (!isSpace ·)
        let events ← readEvents steps (name :: nesting) rest
        some (texts ++ .opened (localName name) :: events)

/-- The events of a text, if it is well formed. A byte order mark at the start is passed over. -/
def events? (t : Text) : Option (List Event) :=
  let t := match t with
    | '\ufeff' :: rest => rest
    | t => t
  readEvents (t.length + 1) [] t

end ConfigTree.Xml
