import ConfigTree.Mark
import ConfigTree.NodeId

/-!
Syntax trees of properties files. Like YAML trees they keep every character, and their nodes
are told apart by identity. Keys and values are kept as written, escapes and line
continuations included.
-/

namespace ConfigTree.Properties

/-- What separates a key from its value, beyond blanks. -/
inductive Delimiter where
  | equals
  | colon
  | none
deriving DecidableEq, Repr

def Delimiter.written : Delimiter → Text
  | equals => ['=']
  | colon => [':']
  | none => []

structure Value where
  id : NodeId
  lead : Text
  text : Text
  mark : Option Mark
deriving DecidableEq, Repr

/-- A key and its value. `gap` are the blanks between the key and its delimiter. -/
structure Entry where
  id : NodeId
  lead : Text
  key : Text
  gap : Text
  delimiter : Delimiter
  value : Value
deriving DecidableEq, Repr

/-- A comment with the sign that opens it. -/
structure Comment where
  id : NodeId
  lead : Text
  sign : Char
  message : Text
deriving DecidableEq, Repr

inductive Content where
  | entry (entry : Entry)
  | comment (comment : Comment)
deriving DecidableEq, Repr

/-- A properties file. `tail` is what follows the last entry or comment. -/
structure File where
  id : NodeId
  content : List Content
  tail : Text
deriving DecidableEq, Repr

def Content.id : Content → NodeId
  | entry e => e.id
  | comment c => c.id

/-- The entries of a file, without the comments. -/
def File.entries (f : File) : List Entry :=
  f.content.filterMap fun
    | .entry e => some e
    | .comment _ => none

/-! ### Changed copies -/

/-- The value with another text. -/
def Value.withText (revision : Nat) (v : Value) (text : Text) : Value :=
  if text = v.text then v else { v with id := v.id.revised revision, text }

/-- The value as a search hit. A value has at most one mark: the first stays. -/
def Value.withMark (revision : Nat) (v : Value) (mark : Mark) : Value :=
  match v.mark with
  | some _ => v
  | none => { v with id := v.id.revised revision, mark := some mark }

/-- The entry with another value. -/
def Entry.withValue (revision : Nat) (e : Entry) (value : Value) : Entry :=
  if value.id = e.value.id then e else { e with id := e.id.revised revision, value }

/-- The file with other content, unless each piece is the node it was. -/
def File.withContent (revision : Nat) (f : File) (content : List Content) : File :=
  if content.map Content.id = f.content.map Content.id then f
  else { f with id := f.id.revised revision, content }

/-- The revision of the next change to the file. -/
def File.nextRevision (f : File) : Nat := f.id.revision + 1

/-- The file with `change` made to every entry, at the next revision. -/
def File.mapEntries (f : File) (change : Nat → Entry → Entry) : File :=
  f.withContent f.nextRevision <| f.content.map fun
    | .entry e => .entry (change f.nextRevision e)
    | .comment c => .comment c

/-! ### Printing -/

def Value.pieces (v : Value) : List (Piece Value) :=
  match v.mark with
  | none => [.chars v.lead, .chars v.text]
  | some m => [.chars v.lead, .mark v m, .chars v.text]

def Content.pieces : Content → List (Piece Value)
  | entry e => .chars (e.lead ++ e.key ++ e.gap ++ e.delimiter.written) :: e.value.pieces
  | comment c => [.chars (c.lead ++ c.sign :: c.message)]

def File.pieces (f : File) : List (Piece Value) := f.content.flatMap Content.pieces ++ [.chars f.tail]

/-- The text of the file. -/
def File.print (f : File) : Text := Piece.print f.pieces

end ConfigTree.Properties
