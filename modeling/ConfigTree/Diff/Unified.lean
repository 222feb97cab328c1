import ConfigTree.Diff.Compact
import ConfigTree.Text.Lines
import ConfigTree.Text.Numeral

/-!
Unified diffs: the changes between two texts, line by line, in hunks with three lines of context.
-/

namespace ConfigTree.Diff

/-- A stretch of lines that are kept, or one in which lines of the old text, which begin at `old`,
are replaced by lines of the new text, which begin at `new`. -/
inductive Change where
  | keep (old new length : Nat)
  | replace (old oldLength new newLength : Nat)
deriving DecidableEq, Repr

namespace Change

def oldRange : Change → Nat × Nat
  | keep old _ n => (old, old + n)
  | replace old n _ _ => (old, old + n)

def newRange : Change → Nat × Nat
  | keep _ new n => (new, new + n)
  | replace _ _ new n => (new, new + n)

end Change

/-- The steps joined to changes: edits with nothing kept between them make one change. -/
def changes : List Step → List Change
  | [] => []
  | s :: steps =>
    match s.action, changes steps with
    | .keep, .keep _ _ n :: rest => .keep s.old s.new (s.length + n) :: rest
    | .keep, rest => .keep s.old s.new s.length :: rest
    | .delete, .replace _ 0 new n :: rest => .replace s.old s.length new n :: rest
    | .delete, .replace _ m new n :: rest => .replace s.old (s.length + m) new n :: rest
    | .delete, rest => .replace s.old s.length s.new 0 :: rest
    | .insert, .replace old m _ 0 :: rest => .replace old m s.new s.length :: rest
    | .insert, .replace old m _ n :: rest => .replace old m s.new (s.length + n) :: rest
    | .insert, rest => .replace s.old 0 s.new s.length :: rest

/-- The lines of context around a change. -/
def contextLines : Nat := 3

/-- The first change cut to the context before a hunk. -/
def cutFirst : List Change → List Change
  | .keep old new n :: rest =>
    .keep (old + (n - contextLines)) (new + (n - contextLines)) (min n contextLines) :: rest
  | cs => cs

/-- The last change cut to the context after a hunk. -/
def cutLast : List Change → List Change
  | [] => []
  | [.keep old new n] => [.keep old new (min n contextLines)]
  | c :: cs => c :: cutLast cs

/-- The hunks of a list of changes: they part where more lines are kept than two contexts have.
`hunk` are the changes of the hunk so far, the last first. -/
def hunksFrom (hunk : List Change) : List Change → List (List Change)
  | [] => [hunk.reverse]
  | .keep old new n :: rest =>
    if 2 * contextLines < n then
      (Change.keep old new contextLines :: hunk).reverse ::
        hunksFrom [.keep (old + (n - contextLines)) (new + (n - contextLines)) contextLines] rest
    else hunksFrom (.keep old new n :: hunk) rest
  | c :: rest => hunksFrom (c :: hunk) rest

/-- Whether a hunk changes anything. -/
def hasEdit (hunk : List Change) : Bool :=
  hunk.any fun
    | .keep .. => false
    | .replace .. => true

def hunks (cs : List Change) : List (List Change) :=
  (hunksFrom [] (cutLast (cutFirst cs))).filter hasEdit

/-! ### Printing -/

/-- A range of lines as told in the head of a hunk: the first line and how many they are, unless it
is one. An empty range is told by the line before it. -/
def rangeText : Nat × Nat → Text
  | (first, last) =>
    if last - first = 1 then Text.ofNat (first + 1)
    else if last - first = 0 then Text.ofNat first ++ [',', '0']
    else Text.ofNat (first + 1) ++ ',' :: Text.ofNat (last - first)

/-- A line with its sign. A missing line end is told on a line of its own. -/
def lineText (sign : Char) (line : Text) : Text :=
  if Text.hasLineEnd line then sign :: line
  else sign :: line ++ "\n\\ No newline at end of file\n".toList

def changeText (old new : Array Text) : Change → Text
  | .keep start _ n => (slice old start (start + n)).flatMap (lineText ' ')
  | .replace oldStart m newStart n =>
    (slice old oldStart (oldStart + m)).flatMap (lineText '-') ++
      (slice new newStart (newStart + n)).flatMap (lineText '+')

/-- The head of a hunk: the lines that it covers in both texts. -/
def headText (hunk : List Change) : Text :=
  match hunk.head?, hunk.getLast? with
  | some first, some last =>
    "@@ -".toList ++ rangeText (first.oldRange.1, last.oldRange.2) ++ " +".toList ++
      rangeText (first.newRange.1, last.newRange.2) ++ " @@\n".toList
  | _, _ => []

def hunkText (old new : Array Text) (hunk : List Change) : Text :=
  headText hunk ++ hunk.flatMap (changeText old new)

/-- The changes that turn the file at `path` from `before` to `after`: nothing, or a head with the
path and the hunks. -/
def unified (path before after : Text) : Text :=
  let old := Text.lines before
  let new := Text.lines after
  match hunks (changes (compact old new (script old new))) with
  | [] => []
  | found =>
    "--- a/".toList ++ path ++ "\n+++ b/".toList ++ path ++ ['\n'] ++
      found.flatMap (hunkText old.toArray new.toArray)

end ConfigTree.Diff
