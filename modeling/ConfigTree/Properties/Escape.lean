import ConfigTree.Properties.Tree
import ConfigTree.Text.Numeral

/-!
What keys and values of properties files stand for: backslash escapes and line
continuations resolved.
-/

namespace ConfigTree.Properties

/-- The blanks of properties files. -/
def isBlank (c : Char) : Bool := c == ' ' || c == '\t' || c == '\x0c'

/-- The character with the number that the text gives in base sixteen. -/
def codePoint? (hex : Text) : Option Char :=
  match Text.numeral? 16 hex with
  | some n => if n.isValidChar then some (Char.ofNat n) else none
  | none => none

/-- What `\u` and the at most four characters after it stand for: a code point, or else themselves
without the backslash. -/
def unescapedCodePoint (hex : Text) : Text :=
  match codePoint? hex with
  | some c => [c]
  | none => 'u' :: hex

def isLineEnd (c : Char) : Bool := c == '\n' || c == '\r'

/-- What a backslash and a character that is neither `u` nor a line end stand for. -/
def escaped (c : Char) : Char :=
  if c = 't' then '\t' else if c = 'n' then '\n' else if c = 'r' then '\r' else if c = 'f' then '\x0c' else c

/-- The text with every escape replaced by what it stands for. A line end after a backslash counts
for nothing, nor does a line feed right after it, nor the blanks that the next line begins with:
`atLineStart` tells that such blanks may come. -/
def unescapeFrom : (atLineStart : Bool) → Text → Text
  | _, [] => []
  | _, ['\\'] => []
  | _, '\\' :: 'u' :: a :: b :: c :: d :: cs => unescapedCodePoint [a, b, c, d] ++ unescapeFrom false cs
  | _, '\\' :: 'u' :: cs => unescapedCodePoint cs
  | _, '\\' :: '\r' :: '\n' :: cs => unescapeFrom true cs
  | _, '\\' :: '\n' :: '\n' :: cs => unescapeFrom true cs
  | _, '\\' :: c :: cs =>
    if isLineEnd c then unescapeFrom true cs else escaped c :: unescapeFrom false cs
  | atLineStart, c :: cs =>
    if atLineStart ∧ isBlank c then unescapeFrom true cs else c :: unescapeFrom false cs

/-- The text with every escape replaced by what it stands for. -/
def unescape (t : Text) : Text := unescapeFrom false t

/-- The key that an entry is for. -/
def Entry.keyText (e : Entry) : Text := unescape e.key

/-- What a value stands for. -/
def Value.meaning (v : Value) : Text := unescape v.text

/-- The last entry for `key`: later entries take the place of earlier ones. -/
def File.find? (f : File) (key : Text) : Option Entry :=
  (f.entries.filter (·.keyText = key)).getLast?

/-- The file with `text` as the value, as written, of every entry for `key`. -/
def File.setText (f : File) (key text : Text) : File :=
  f.mapEntries fun revision e =>
    if e.keyText = key then e.withValue revision (e.value.withText revision text) else e

end ConfigTree.Properties
