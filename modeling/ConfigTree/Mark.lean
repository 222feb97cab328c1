import ConfigTree.Text.Basic

/-!
Marks on values: what a search leaves at a value that it found, and how the mark is printed in front
of the value. Printed trees are lists of pieces in which marks are still told apart from text, so
that the line of every mark can be read off them.
-/

namespace ConfigTree

/-- A search hit, with what is to be said about it. -/
structure Mark where
  description : Option Text := none
deriving DecidableEq, Repr

/-- An arrow, with the description on its shaft. -/
def Mark.arrow : Mark → Text
  | ⟨none⟩ => ['~', '~', '>']
  | ⟨some d⟩ => ['~', '~', '('] ++ d ++ [')', '~', '~', '>']

/-- A piece of printed output: characters, or the mark on `owner`. -/
inductive Piece (α : Type) where
  | chars (text : Text)
  | mark (owner : α) (mark : Mark)

namespace Piece

variable {α : Type}

/-- What a piece prints as. -/
def text : Piece α → Text
  | chars t => t
  | mark _ m => m.arrow

/-- What a list of pieces prints as. -/
def print (ps : List (Piece α)) : Text := ps.flatMap text

/-- The marked owners in printing order, each with the line its mark starts on: `line` and one more
for every line feed printed before the mark. -/
def markedLinesFrom (line : Nat) : List (Piece α) → List (α × Nat)
  | [] => []
  | chars t :: ps => markedLinesFrom (line + t.lineFeeds) ps
  | mark o m :: ps => (o, line) :: markedLinesFrom (line + m.arrow.lineFeeds) ps

/-- The marked owners in printing order, each with the line its mark starts on, counted from one. -/
def markedLines (ps : List (Piece α)) : List (α × Nat) := markedLinesFrom 1 ps

@[simp] theorem print_nil : print ([] : List (Piece α)) = [] := rfl

@[simp] theorem print_cons (p : Piece α) (ps : List (Piece α)) : print (p :: ps) = p.text ++ print ps := rfl

@[simp] theorem print_append (ps qs : List (Piece α)) : print (ps ++ qs) = print ps ++ print qs :=
  List.flatMap_append

@[simp] theorem text_chars (t : Text) : (chars t : Piece α).text = t := rfl

@[simp] theorem text_mark (o : α) (m : Mark) : (mark o m).text = m.arrow := rfl

end Piece

end ConfigTree
