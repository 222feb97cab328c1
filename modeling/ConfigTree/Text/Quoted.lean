import ConfigTree.Text.Basic
import ConfigTree.Text.Visible

/-!
Texts between double quotes, as they are told in messages: a backslash escapes the quotes, itself
and the common controls, and every other character that cannot be shown is given by its number.
-/

namespace ConfigTree.Text

/-- A character between quotes. -/
def quotedChar (c : Char) : Text :=
  if c = '\x00' then ['\\', '0']
  else if c = '\t' then ['\\', 't']
  else if c = '\n' then ['\\', 'n']
  else if c = '\r' then ['\\', 'r']
  else if c = '"' ∨ c = '\\' then ['\\', c]
  else if isVisible c then [c]
  else ['\\', 'u', '\x7b'] ++ Nat.toDigits 16 c.toNat ++ ['\x7d']

/-- The text between double quotes. -/
def quoted (t : Text) : Text := '"' :: t.flatMap quotedChar ++ ['"']

end ConfigTree.Text
