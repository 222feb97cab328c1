import ConfigTree.Yaml.Visit

/-!
Walking over YAML trees with a walker that keeps something from node to node. A walker meets every
node before what is below it and decides whether to go on below. What it keeps goes with it from one
node to the next in printing order, and from one tree to the next.
-/

namespace ConfigTree.Yaml

/-- What to do at a node, given how to go on below it, which comes to the node with what is below it
walked over. An answer that does not fit where the node stands leaves the node as it was. -/
abbrev Walker (m : Type → Type) := m Node → Node → m Node

variable {m : Type → Type} [Monad m]

def Scalar.walk (w : Walker m) (s : Scalar) : m Scalar := do
  let answer ← w (pure (.scalar s)) (.scalar s)
  return answer.asScalar.getD s

mutual

def Value.walk (w : Walker m) (revision : Nat) : Value → m Value
  | .scalar s => do
    let answer ← w (pure (.scalar s)) (.scalar s)
    return answer.asValue.getD (.scalar s)
  | .mapping o => do
    let answer ← w (.mapping <$> o.walkInside w revision) (.mapping o)
    return answer.asValue.getD (.mapping o)
  | .sequence o => do
    let answer ← w (.sequence <$> o.walkInside w revision) (.sequence o)
    return answer.asValue.getD (.sequence o)

/-- The mapping with its entries walked over. -/
def Mapping.walkInside (w : Walker m) (revision : Nat) : Mapping → m Mapping
  | ⟨id, style, entries⟩ => do
    let entries' ← walkEntries w revision entries
    return Mapping.withEntries revision ⟨id, style, entries⟩ entries'

def walkEntries (w : Walker m) (revision : Nat) : List Entry → m (List Entry)
  | [] => pure []
  | e :: es => do
    let answer ← w (.entry <$> e.walkInside w revision) (.entry e)
    let es' ← walkEntries w revision es
    return answer.asEntry.getD e :: es'

/-- The entry with its key and then its value walked over. -/
def Entry.walkInside (w : Walker m) (revision : Nat) : Entry → m Entry
  | ⟨id, lead, key, gap, value, comma⟩ => do
    let key' ← key.walk w
    let value' ← value.walk w revision
    return Entry.withParts revision ⟨id, lead, key, gap, value, comma⟩ key' value'

/-- The sequence with its items walked over. -/
def Sequence.walkInside (w : Walker m) (revision : Nat) : Sequence → m Sequence
  | ⟨id, style, items⟩ => do
    let items' ← walkItems w revision items
    return Sequence.withItems revision ⟨id, style, items⟩ items'

def walkItems (w : Walker m) (revision : Nat) : List Item → m (List Item)
  | [] => pure []
  | i :: is => do
    let answer ← w (.item <$> i.walkInside w revision) (.item i)
    let is' ← walkItems w revision is
    return answer.asItem.getD i :: is'

/-- The item with its value walked over. -/
def Item.walkInside (w : Walker m) (revision : Nat) : Item → m Item
  | ⟨id, lead, dash, value, comma⟩ => do
    let value' ← value.walk w revision
    return Item.withValue revision ⟨id, lead, dash, value, comma⟩ value'

end

/-- The document with its body walked over. -/
def Document.walkInside (w : Walker m) (revision : Nat) (d : Document) : m Document := do
  let body ← d.body.walk w revision
  return d.withBody revision body

def Document.walk (w : Walker m) (revision : Nat) (d : Document) : m Document := do
  let answer ← w (.document <$> d.walkInside w revision) (.document d)
  return answer.asDocument.getD d

/-- The stream with all its nodes walked over. What is rebuilt belongs to the next revision. -/
def Stream.walk (w : Walker m) (s : Stream) : m Stream := do
  let documents ← s.documents.mapM (Document.walk w s.nextRevision)
  return s.withDocuments s.nextRevision documents

namespace Walker

/-- The walker that changes scalars by `f`. It keeps those that it has met. -/
def recording (f : Scalar → Scalar) : Walker (StateM (List Scalar))
  | _, .scalar s => do
    modify (· ++ [s])
    return .scalar (f s)
  | inside, _ => inside

/-- The walker that goes on below the node `parent` alone, and answers with `after` where it meets the
node `before`. -/
def substituting (parent before after : Node) : Walker m := fun inside n =>
  if n.same parent then inside else if n.same before then pure after else pure n

/-- The walker that first comes to an answer of its own about a node, or to none, and then does what
`w` does. -/
def answering (answer? : m Node → Node → m (Option Node)) (w : Walker m) : Walker m :=
  fun inside n => do
    match ← answer? inside n with
    | some answer => return answer
    | none => w inside n

end Walker

end ConfigTree.Yaml
