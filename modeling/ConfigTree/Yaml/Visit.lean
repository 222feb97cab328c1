import ConfigTree.Yaml.Tree

/-!
Walking over YAML trees. `nodes` and `scalars` list what a tree holds in printing order. A visitor
makes changed trees: it is asked about every node, after the children, and may answer with another
node. What it leaves alone stays the node it is, and so does every node above which nothing changes.
-/

namespace ConfigTree.Yaml

/-! ### What a tree holds -/

mutual

/-- The value and all nodes below it, each before its children. -/
def Value.nodes : Value → List Node
  | .scalar s => [.scalar s]
  | .mapping m => m.nodes
  | .sequence s => s.nodes

def Mapping.nodes : Mapping → List Node
  | ⟨id, style, entries⟩ => .mapping ⟨id, style, entries⟩ :: entriesNodes entries

def entriesNodes : List Entry → List Node
  | [] => []
  | e :: es => e.nodes ++ entriesNodes es

def Entry.nodes : Entry → List Node
  | ⟨id, lead, key, gap, value, comma⟩ =>
    .entry ⟨id, lead, key, gap, value, comma⟩ :: .scalar key :: value.nodes

def Sequence.nodes : Sequence → List Node
  | ⟨id, style, items⟩ => .sequence ⟨id, style, items⟩ :: itemsNodes items

def itemsNodes : List Item → List Node
  | [] => []
  | i :: is => i.nodes ++ itemsNodes is

def Item.nodes : Item → List Node
  | ⟨id, lead, dash, value, comma⟩ => .item ⟨id, lead, dash, value, comma⟩ :: value.nodes

end

def Document.nodes (d : Document) : List Node := .document d :: d.body.nodes

/-- All nodes of the stream in printing order, each before its children. -/
def Stream.nodes (s : Stream) : List Node := s.documents.flatMap Document.nodes

mutual

/-- The scalars of the value in printing order, each with the keys of the entries around it,
outermost first. The key of an entry is inside that entry. -/
def Value.scalars (path : List Text) : Value → List (List Text × Scalar)
  | .scalar s => [(path, s)]
  | .mapping m => m.scalars path
  | .sequence s => s.scalars path

def Mapping.scalars (path : List Text) : Mapping → List (List Text × Scalar)
  | ⟨_, _, entries⟩ => entriesScalars path entries

def entriesScalars (path : List Text) : List Entry → List (List Text × Scalar)
  | [] => []
  | e :: es => e.scalars path ++ entriesScalars path es

def Entry.scalars (path : List Text) : Entry → List (List Text × Scalar)
  | ⟨_, _, key, _, value, _⟩ => (path ++ [key.text], key) :: value.scalars (path ++ [key.text])

def Sequence.scalars (path : List Text) : Sequence → List (List Text × Scalar)
  | ⟨_, _, items⟩ => itemsScalars path items

def itemsScalars (path : List Text) : List Item → List (List Text × Scalar)
  | [] => []
  | i :: is => i.scalars path ++ itemsScalars path is

def Item.scalars (path : List Text) : Item → List (List Text × Scalar)
  | ⟨_, _, _, value, _⟩ => value.scalars path

end

/-- The scalars of the stream in printing order with the keys around them. -/
def Stream.scalars (s : Stream) : List (List Text × Scalar) :=
  s.documents.flatMap fun d => d.body.scalars []

/-- The nodes directly below a node. -/
def Node.children : Node → List Node
  | .document d => [d.body.toNode]
  | .mapping m => m.entries.map .entry
  | .entry e => [.scalar e.key, e.value.toNode]
  | .sequence s => s.items.map .item
  | .item i => [i.value.toNode]
  | .scalar _ => []

/-- The node reached from `n` by taking the child with each index in turn. -/
def Node.descendant? (n : Node) : List Nat → Option Node
  | [] => some n
  | i :: is => n.children[i]? >>= fun child => child.descendant? is

/-- The node at an address: the index of its document, then the index of a child on each level. -/
def Stream.nodeAt? (s : Stream) : List Nat → Option Node
  | [] => none
  | i :: is => s.documents[i]? >>= fun d => (Node.document d).descendant? is

/-! ### Changed trees -/

/-- What to make of a node: given the keys of the entries around it, the node, and the node with its
children visited. An answer that does not fit where the node stands leaves the node as it was. -/
abbrev Visitor := List Text → Node → Node → Node

/-- The visitor that changes scalars by `f` and nothing else. -/
def Visitor.onScalars (f : Scalar → Scalar) : Visitor
  | _, .scalar s, _ => .scalar (f s)
  | _, _, visited => visited

def Scalar.visit (v : Visitor) (path : List Text) (s : Scalar) : Scalar :=
  (v path (.scalar s) (.scalar s)).asScalar.getD s

mutual

def Value.visit (v : Visitor) (revision : Nat) (path : List Text) : Value → Value
  | .scalar s => (v path (.scalar s) (.scalar s)).asValue.getD (.scalar s)
  | .mapping m => (v path (.mapping m) (.mapping (m.visitInside v revision path))).asValue.getD (.mapping m)
  | .sequence s =>
    (v path (.sequence s) (.sequence (s.visitInside v revision path))).asValue.getD (.sequence s)

/-- The mapping with its entries visited. -/
def Mapping.visitInside (v : Visitor) (revision : Nat) (path : List Text) : Mapping → Mapping
  | ⟨id, style, entries⟩ =>
    Mapping.withEntries revision ⟨id, style, entries⟩ (visitEntries v revision path entries)

def visitEntries (v : Visitor) (revision : Nat) (path : List Text) : List Entry → List Entry
  | [] => []
  | e :: es =>
    (v path (.entry e) (.entry (e.visitInside v revision path))).asEntry.getD e ::
      visitEntries v revision path es

/-- The entry with its key and its value visited. -/
def Entry.visitInside (v : Visitor) (revision : Nat) (path : List Text) : Entry → Entry
  | ⟨id, lead, key, gap, value, comma⟩ =>
    Entry.withParts revision ⟨id, lead, key, gap, value, comma⟩ (key.visit v (path ++ [key.text]))
      (value.visit v revision (path ++ [key.text]))

/-- The sequence with its items visited. -/
def Sequence.visitInside (v : Visitor) (revision : Nat) (path : List Text) : Sequence → Sequence
  | ⟨id, style, items⟩ =>
    Sequence.withItems revision ⟨id, style, items⟩ (visitItems v revision path items)

def visitItems (v : Visitor) (revision : Nat) (path : List Text) : List Item → List Item
  | [] => []
  | i :: is =>
    (v path (.item i) (.item (i.visitInside v revision path))).asItem.getD i ::
      visitItems v revision path is

/-- The item with its value visited. -/
def Item.visitInside (v : Visitor) (revision : Nat) (path : List Text) : Item → Item
  | ⟨id, lead, dash, value, comma⟩ =>
    Item.withValue revision ⟨id, lead, dash, value, comma⟩ (value.visit v revision path)

end

def Document.visit (v : Visitor) (revision : Nat) (d : Document) : Document :=
  (v [] (.document d) (.document (d.withBody revision (d.body.visit v revision [])))).asDocument.getD d

/-- The revision of the next change to the stream. -/
def Stream.nextRevision (s : Stream) : Nat := s.id.revision + 1

/-- The stream with all its nodes visited. What is rebuilt belongs to the next revision. -/
def Stream.visit (v : Visitor) (s : Stream) : Stream :=
  s.withDocuments s.nextRevision (s.documents.map (Document.visit v s.nextRevision))

/-- The visitor that gives scalars that read `old` the text `new`. -/
def replacing (revision : Nat) (old new : Text) : Visitor :=
  .onScalars fun s => if s.text = old then s.withText revision new else s

/-- Like `replacing`, except that keys keep their text. -/
def replacingValues (revision : Nat) (old new : Text) : Visitor
  | _, .entry e, .entry visited => .entry (e.withParts revision e.key visited.value)
  | path, node, visited => replacing revision old new path node visited

end ConfigTree.Yaml
