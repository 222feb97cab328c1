import ConfigTree.Text.Basic

/-!
White space in the sense of Unicode, and trimming by it.
-/

namespace ConfigTree

/-- The characters with the Unicode property White_Space. -/
def isWhiteSpace (c : Char) : Bool :=
  let n := c.toNat
  (9 ≤ n && n ≤ 13) || n == 0x20 || n == 0x85 || n == 0xA0 || n == 0x1680 ||
    (0x2000 ≤ n && n ≤ 0x200A) || n == 0x2028 || n == 0x2029 || n == 0x202F || n == 0x205F ||
    n == 0x3000

namespace Text

/-- Drops white space at both ends. -/
def trim (t : Text) : Text := trimWhile isWhiteSpace t

/-- Whether there is nothing but white space. -/
def isBlank (t : Text) : Bool := t.all isWhiteSpace

end Text

end ConfigTree
