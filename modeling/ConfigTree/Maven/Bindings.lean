import ConfigTree.Text.Basic

/-!
Names bound to texts, and texts with placeholders `${name}` for bound names. Values may have
placeholders themselves, so expansion goes through the text again, ten times at most.
-/

namespace ConfigTree.Maven

/-- Taking one key out of a table leaves what the table has at the others. -/
theorem lookup_filter_ne {κ α : Type} [BEq κ] [LawfulBEq κ] [DecidableEq κ] {key other : κ}
    (differs : other ≠ key) (rows : List (κ × α)) :
    (rows.filter (·.1 ≠ key)).lookup other = rows.lookup other := by
  induction rows with
  | nil => rfl
  | cons row rows ih => grind

/-- Names with their values. A name has one value. -/
structure Bindings where
  pairs : List (Text × Text)
deriving DecidableEq, Repr

namespace Bindings

def empty : Bindings := ⟨[]⟩

def find? (b : Bindings) (name : Text) : Option Text := b.pairs.lookup name

/-- The bindings with `name` bound to `value`, whatever it was bound to. -/
def insert (b : Bindings) (name value : Text) : Bindings :=
  ⟨(name, value) :: b.pairs.filter (·.1 ≠ name)⟩

@[simp] theorem find?_insert_self (b : Bindings) (name value : Text) :
    (b.insert name value).find? name = some value := by simp [insert, find?]

theorem find?_insert_ne (b : Bindings) {name other : Text} (value : Text) (differs : other ≠ name) :
    (b.insert name value).find? other = b.find? other := by
  have apart : (other == name) = false := beq_eq_false_iff_ne.mpr differs
  simp only [insert, find?, List.lookup_cons, apart, lookup_filter_ne differs]

end Bindings

/-- A piece of a text with placeholders. -/
inductive Segment where
  | char (char : Char)
  | placeholder (name : Text)
deriving DecidableEq, Repr

/-- The segments of a text. `name` is what has been read of the name of a placeholder, last
character first, if one is open; without a closing brace there is no placeholder. -/
def segmentsFrom : Option Text → Text → List Segment
  | none, [] => []
  | some name, [] => ('$' :: '\x7b' :: name.reverse).map .char
  | none, '$' :: '\x7b' :: cs => segmentsFrom (some []) cs
  | none, c :: cs => .char c :: segmentsFrom none cs
  | some name, c :: cs =>
    if c = '\x7d' then .placeholder name.reverse :: segmentsFrom none cs
    else segmentsFrom (some (c :: name)) cs

def segments (t : Text) : List Segment := segmentsFrom none t

/-- A segment as written. -/
def Segment.written : Segment → Text
  | char c => [c]
  | placeholder name => '$' :: '\x7b' :: name ++ ['\x7d']

namespace Bindings

def binds (b : Bindings) : Segment → Bool
  | .char _ => false
  | .placeholder name => (b.find? name).isSome

/-- A segment with its value in the place of the name, if it has one. -/
def expandSegment (b : Bindings) : Segment → Text
  | .char c => [c]
  | .placeholder name => (b.find? name).getD (Segment.placeholder name).written

/-- The text with placeholders of bound names replaced by the values, and again in what comes of it,
in at most `rounds` rounds. -/
def expandRounds (b : Bindings) : Nat → Text → Text
  | 0, t => t
  | rounds + 1, t =>
    if (segments t).any b.binds then b.expandRounds rounds ((segments t).flatMap b.expandSegment) else t

/-- The text with placeholders of bound names replaced by the values, through ten levels of them.
Placeholders of other names stay, as do those that refer to themselves. -/
def expand (b : Bindings) (t : Text) : Text := b.expandRounds 10 t

end Bindings

end ConfigTree.Maven
