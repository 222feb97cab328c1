import ConfigTree.Text.Basic

/-!
Lines with their ends. A line ends after a line feed, after a carriage return and a line feed, or
after a carriage return alone.
-/

namespace ConfigTree.Text

/-- Whether a line has an end. -/
def hasLineEnd (line : Text) : Bool := line.getLast? == some '\n' || line.getLast? == some '\r'

/-- Goes on with the lines of a text in a line whose characters so far are `line`, the
last first. -/
def linesFrom (line : Text) : Text → List Text
  | [] => if line = [] then [] else [line.reverse]
  | '\r' :: '\n' :: cs => ('\n' :: '\r' :: line).reverse :: linesFrom [] cs
  | c :: cs =>
    if c = '\n' ∨ c = '\r' then (c :: line).reverse :: linesFrom [] cs else linesFrom (c :: line) cs

/-- The lines of a text. Only the last may be without an end. -/
def lines (t : Text) : List Text := linesFrom [] t

end ConfigTree.Text
