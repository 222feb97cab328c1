/-!
Texts as lists of characters, and the ways in which the rest of the library cuts, joins and measures
them. Sizes in bytes are sizes of the UTF-8 form.
-/

namespace ConfigTree

/-- A text, character by character. Syntax trees keep their pieces in this form, so that what
reading takes apart and printing puts together are facts about lists. -/
abbrev Text := List Char

namespace Text

/-- The number of line feeds. -/
def lineFeeds (t : Text) : Nat := t.count '\n'

/-- Drops the longest end all of whose characters satisfy `p`. -/
def trimEndWhile (p : Char → Bool) (t : Text) : Text := (t.reverse.dropWhile p).reverse

/-- Drops the longest start and the longest end all of whose characters satisfy `p`. -/
def trimWhile (p : Char → Bool) (t : Text) : Text := trimEndWhile p (t.dropWhile p)

/-- The pieces between the occurrences of `sep`: one more than there are separators. -/
def splitOn (sep : Char) : Text → List Text
  | [] => [[]]
  | c :: cs =>
    if c = sep then [] :: splitOn sep cs
    else match splitOn sep cs with
      | [] => [[c]]
      | piece :: pieces => (c :: piece) :: pieces

/-- The pieces with `sep` between each two of them. -/
def joinWith (sep : Char) : List Text → Text
  | [] => []
  | [piece] => piece
  | piece :: pieces => piece ++ sep :: joinWith sep pieces

theorem splitOn_ne_nil (sep : Char) (t : Text) : splitOn sep t ≠ [] := by
  fun_cases splitOn sep t <;> simp_all

@[simp] theorem joinWith_cons_cons (sep : Char) (p q : Text) (ps : List Text) :
    joinWith sep (p :: q :: ps) = p ++ sep :: joinWith sep (q :: ps) := rfl

/-- Joining undoes splitting. -/
@[simp] theorem joinWith_splitOn (sep : Char) (t : Text) : joinWith sep (splitOn sep t) = t := by
  fun_induction splitOn sep t with
  | case1 => rfl
  | case2 cs ih =>
    cases h : splitOn sep cs with
    | nil => exact absurd h (splitOn_ne_nil sep cs)
    | cons p ps => rw [joinWith_cons_cons, ← h, ih, List.nil_append]
  | case3 c cs _ h => exact absurd h (splitOn_ne_nil sep cs)
  | case4 c cs _ piece pieces h ih =>
    rw [h] at ih
    cases pieces <;> simp_all [joinWith]

/-- What stands before and after the first occurrence of `sep`. -/
def cutAt (sep : Text) : Text → Option (Text × Text)
  | [] => none
  | c :: cs =>
    if sep.isPrefixOf (c :: cs) then some ([], (c :: cs).drop sep.length)
    else (cutAt sep cs).map fun (before, after) => (c :: before, after)

/-- Letters of the ASCII alphabet in upper case. -/
def asciiUpper (t : Text) : Text := t.map Char.toUpper

/-- Letters of the ASCII alphabet in lower case. -/
def asciiLower (t : Text) : Text := t.map Char.toLower

/-- The order of a dictionary over code points. -/
def compare : Text → Text → Ordering
  | [], [] => .eq
  | [], _ :: _ => .lt
  | _ :: _, [] => .gt
  | c :: cs, d :: ds => (Ord.compare c.toNat d.toNat).then (compare cs ds)

/-- The cut at the first character that fails `p`. -/
def span (p : Char → Bool) (t : Text) : Text × Text := (t.takeWhile p, t.dropWhile p)

@[simp] theorem span_append (p : Char → Bool) (t : Text) : (span p t).1 ++ (span p t).2 = t :=
  List.takeWhile_append_dropWhile

end Text

end ConfigTree
