import ConfigTree.Yaml.Parse

/-!
Numbering the nodes of a tree, from the outside in and from left to right, so that no two nodes of a
stream that was read have the same identity. Numbering changes nothing else.
-/

namespace ConfigTree.Yaml

/-- The identity of the node numbered `n`, as first built. -/
def firstAt (n : Nat) : NodeId := ⟨n, 0⟩

def Scalar.numbered (n : Nat) (s : Scalar) : Scalar × Nat := ({ s with id := firstAt n }, n + 1)

mutual

/-- The value with its nodes numbered from `n` on, and the first number left. -/
def Value.numbered (n : Nat) : Value → Value × Nat
  | .scalar s => let (s, n) := s.numbered n; (.scalar s, n)
  | .mapping m => let (m, n) := m.numbered n; (.mapping m, n)
  | .sequence s => let (s, n) := s.numbered n; (.sequence s, n)

def Mapping.numbered (n : Nat) : Mapping → Mapping × Nat
  | ⟨_, style, entries⟩ =>
    let (entries, next) := numberedEntries (n + 1) entries
    (⟨firstAt n, style, entries⟩, next)

def numberedEntries (n : Nat) : List Entry → List Entry × Nat
  | [] => ([], n)
  | e :: es =>
    let (e, n) := e.numbered n
    let (es, n) := numberedEntries n es
    (e :: es, n)

def Entry.numbered (n : Nat) : Entry → Entry × Nat
  | ⟨_, lead, key, gap, value, comma⟩ =>
    let (key, next) := key.numbered (n + 1)
    let (value, next) := value.numbered next
    (⟨firstAt n, lead, key, gap, value, comma⟩, next)

def Sequence.numbered (n : Nat) : Sequence → Sequence × Nat
  | ⟨_, style, items⟩ =>
    let (items, next) := numberedItems (n + 1) items
    (⟨firstAt n, style, items⟩, next)

def numberedItems (n : Nat) : List Item → List Item × Nat
  | [] => ([], n)
  | i :: is =>
    let (i, n) := i.numbered n
    let (is, n) := numberedItems n is
    (i :: is, n)

def Item.numbered (n : Nat) : Item → Item × Nat
  | ⟨_, lead, dash, value, comma⟩ =>
    let (value, next) := value.numbered (n + 1)
    (⟨firstAt n, lead, dash, value, comma⟩, next)

end

def Document.numbered (n : Nat) (d : Document) : Document × Nat :=
  let (body, next) := d.body.numbered (n + 1)
  ({ d with id := firstAt n, body }, next)

def numberedDocuments (n : Nat) : List Document → List Document × Nat
  | [] => ([], n)
  | d :: ds =>
    let (d, n) := d.numbered n
    let (ds, n) := numberedDocuments n ds
    (d :: ds, n)

/-- The stream with its nodes numbered, the stream itself first. -/
def Stream.numbered (s : Stream) : Stream :=
  { s with id := firstAt 0, documents := (numberedDocuments 1 s.documents).1 }

/-- The stream in `text`. -/
def parse (text : Text) : Except SyntaxError Stream :=
  match readStream text with
  | .ok stream => .ok stream.numbered
  | .error failure => .error (failure.locate text)

end ConfigTree.Yaml
