import ConfigTree.Mark
import ConfigTree.NodeId

/-!
YAML syntax trees that keep every character. A node holds the blanks and comments in front of it
(its `lead`) beside its own text, so that a tree prints as the text it was read from. Nodes are
never changed in place; the functions here build a changed copy, with a new revision, and give back
the node itself when there is nothing to change.
-/

namespace ConfigTree.Yaml

inductive ScalarStyle where
  | plain
  | singleQuoted
  | doubleQuoted
  | literal
  | folded
deriving DecidableEq, Repr

/-- Block collections are laid out by indentation. Flow collections stand between brackets, and keep
what comes before each of the two. -/
inductive CollectionStyle where
  | block
  | flow (opening closing : Text)
deriving DecidableEq, Repr

/-- A scalar with its text as written: what is between the quotes, or all that follows the indicator
of a literal or folded scalar. -/
structure Scalar where
  id : NodeId
  lead : Text
  style : ScalarStyle
  text : Text
  mark : Option Mark
deriving DecidableEq, Repr

mutual

/-- What can stand as the body of a document, the value of an entry or an item of a sequence. -/
inductive Value where
  | scalar (scalar : Scalar)
  | mapping (mapping : Mapping)
  | sequence (sequence : Sequence)

structure Mapping where
  id : NodeId
  style : CollectionStyle
  entries : List Entry

/-- A key and its value. `gap` is what stands between the key and the colon, and `comma` what stands
before the comma that ends the entry, if one does. -/
structure Entry where
  id : NodeId
  lead : Text
  key : Scalar
  gap : Text
  value : Value
  comma : Option Text

structure Sequence where
  id : NodeId
  style : CollectionStyle
  items : List Item

/-- An item of a sequence, opened by a dash in block style. -/
structure Item where
  id : NodeId
  lead : Text
  dash : Bool
  value : Value
  comma : Option Text

end

mutual

/-- Whether two trees are the same, nodes included. -/
def Value.decEq : (v w : Value) → Decidable (v = w)
  | .scalar s, .scalar t => decidable_of_iff (s = t) (by simp)
  | .mapping m, .mapping n =>
    letI := m.decEq n
    decidable_of_iff (m = n) (by simp)
  | .sequence s, .sequence t =>
    letI := s.decEq t
    decidable_of_iff (s = t) (by simp)
  | .scalar _, .mapping _ | .scalar _, .sequence _ | .mapping _, .scalar _ => isFalse (by simp)
  | .mapping _, .sequence _ | .sequence _, .scalar _ | .sequence _, .mapping _ => isFalse (by simp)

def Mapping.decEq : (m n : Mapping) → Decidable (m = n)
  | ⟨id, style, es⟩, ⟨id', style', es'⟩ =>
    letI := entriesDecEq es es'
    decidable_of_iff (id = id' ∧ style = style' ∧ es = es') (by simp)

def entriesDecEq : (es es' : List Entry) → Decidable (es = es')
  | [], [] => isTrue rfl
  | [], _ :: _ | _ :: _, [] => isFalse (by simp)
  | e :: es, e' :: es' =>
    letI := e.decEq e'
    letI := entriesDecEq es es'
    decidable_of_iff (e = e' ∧ es = es') (by simp)

def Entry.decEq : (e e' : Entry) → Decidable (e = e')
  | ⟨id, lead, key, gap, value, comma⟩, ⟨id', lead', key', gap', value', comma'⟩ =>
    letI := value.decEq value'
    decidable_of_iff
      (id = id' ∧ lead = lead' ∧ key = key' ∧ gap = gap' ∧ value = value' ∧ comma = comma') (by simp)

def Sequence.decEq : (s t : Sequence) → Decidable (s = t)
  | ⟨id, style, is⟩, ⟨id', style', is'⟩ =>
    letI := itemsDecEq is is'
    decidable_of_iff (id = id' ∧ style = style' ∧ is = is') (by simp)

def itemsDecEq : (is is' : List Item) → Decidable (is = is')
  | [], [] => isTrue rfl
  | [], _ :: _ | _ :: _, [] => isFalse (by simp)
  | i :: is, i' :: is' =>
    letI := i.decEq i'
    letI := itemsDecEq is is'
    decidable_of_iff (i = i' ∧ is = is') (by simp)

def Item.decEq : (i i' : Item) → Decidable (i = i')
  | ⟨id, lead, dash, value, comma⟩, ⟨id', lead', dash', value', comma'⟩ =>
    letI := value.decEq value'
    decidable_of_iff (id = id' ∧ lead = lead' ∧ dash = dash' ∧ value = value' ∧ comma = comma')
      (by simp)

end

instance : DecidableEq Value := Value.decEq

instance : DecidableEq Mapping := Mapping.decEq

instance : DecidableEq Entry := Entry.decEq

instance : DecidableEq Sequence := Sequence.decEq

instance : DecidableEq Item := Item.decEq

/-- A document of a stream. `tail` is what stands between the body and the end of the document. -/
structure Document where
  id : NodeId
  lead : Text
  explicitStart : Bool
  body : Value
  tail : Text
  explicitEnd : Bool
deriving DecidableEq

/-- The documents of one file, and what follows the marker that ends the last of them. -/
structure Stream where
  id : NodeId
  documents : List Document
  trailer : Text
deriving DecidableEq

/-- Any node below a stream. -/
inductive Node where
  | document (document : Document)
  | mapping (mapping : Mapping)
  | entry (entry : Entry)
  | sequence (sequence : Sequence)
  | item (item : Item)
  | scalar (scalar : Scalar)
deriving DecidableEq

namespace Scalar

/-- A scalar that has not been numbered. -/
def fresh (lead : Text) (style : ScalarStyle) (text : Text) : Scalar :=
  ⟨.unnumbered, lead, style, text, none⟩

/-- The scalar with another text. -/
def withText (revision : Nat) (s : Scalar) (text : Text) : Scalar :=
  if text = s.text then s else { s with id := s.id.revised revision, text }

/-- The scalar as a search hit. A scalar has at most one mark: the first stays. -/
def withMark (revision : Nat) (s : Scalar) (mark : Mark) : Scalar :=
  match s.mark with
  | some _ => s
  | none => { s with id := s.id.revised revision, mark := some mark }

end Scalar

namespace Value

/-- The value of a key with nothing after its colon. -/
def empty : Value := .scalar (.fresh [] .plain [])

def id : Value → NodeId
  | scalar s => s.id
  | mapping m => m.id
  | sequence s => s.id

def toNode : Value → Node
  | scalar s => .scalar s
  | mapping m => .mapping m
  | sequence s => .sequence s

def asMapping : Value → Option Mapping
  | mapping m => some m
  | _ => none

def asScalar : Value → Option Scalar
  | scalar s => some s
  | _ => none

def isMapping (v : Value) : Bool := v.asMapping.isSome

end Value

namespace Node

def id : Node → NodeId
  | document d => d.id
  | mapping m => m.id
  | entry e => e.id
  | sequence s => s.id
  | item i => i.id
  | scalar s => s.id

/-- Whether two handles are on one and the same node. -/
def same (m n : Node) : Bool := m.id == n.id

/-- What kind of node it is, in words. -/
def kind : Node → String
  | document _ => "document"
  | mapping _ => "mapping"
  | entry _ => "mapping entry"
  | sequence _ => "sequence"
  | item _ => "sequence entry"
  | scalar _ => "scalar"

def asDocument : Node → Option Document
  | document d => some d
  | _ => none

def asEntry : Node → Option Entry
  | entry e => some e
  | _ => none

def asItem : Node → Option Item
  | item i => some i
  | _ => none

def asScalar : Node → Option Scalar
  | scalar s => some s
  | _ => none

def asValue : Node → Option Value
  | scalar s => some (.scalar s)
  | mapping m => some (.mapping m)
  | sequence s => some (.sequence s)
  | _ => none

@[simp] theorem asValue_toNode (v : Value) : v.toNode.asValue = some v := by cases v <;> rfl

@[simp] theorem id_toNode (v : Value) : v.toNode.id = v.id := by cases v <;> rfl

end Node

/-- The first entry with the key text `key`. -/
def Mapping.find? (m : Mapping) (key : Text) : Option Entry := m.entries.find? (·.key.text = key)

/-! ### Copies with other children -/

/-- The document with another body. -/
def Document.withBody (revision : Nat) (d : Document) (body : Value) : Document :=
  if body.id = d.body.id then d else { d with id := d.id.revised revision, body }

/-- The mapping with other entries, unless each is the node it was. -/
def Mapping.withEntries (revision : Nat) (m : Mapping) (entries : List Entry) : Mapping :=
  if entries.map (·.id) = m.entries.map (·.id) then m
  else { m with id := m.id.revised revision, entries }

/-- The entry with another key and value. -/
def Entry.withParts (revision : Nat) (e : Entry) (key : Scalar) (value : Value) : Entry :=
  if key.id = e.key.id ∧ value.id = e.value.id then e
  else { e with id := e.id.revised revision, key, value }

/-- The sequence with other items, unless each is the node it was. -/
def Sequence.withItems (revision : Nat) (s : Sequence) (items : List Item) : Sequence :=
  if items.map (·.id) = s.items.map (·.id) then s
  else { s with id := s.id.revised revision, items }

/-- The item with another value. -/
def Item.withValue (revision : Nat) (i : Item) (value : Value) : Item :=
  if value.id = i.value.id then i else { i with id := i.id.revised revision, value }

/-- The stream with other documents, unless each is the node it was. -/
def Stream.withDocuments (revision : Nat) (s : Stream) (documents : List Document) : Stream :=
  if documents.map (·.id) = s.documents.map (·.id) then s
  else { s with id := s.id.revised revision, documents }

end ConfigTree.Yaml
