import ConfigTree.Proofs.Yaml.Identity
import ConfigTree.Proofs.Yaml.Segments

/-!
# Nodes in slots

A node of any kind is a node with children, each in a slot that takes some kinds of nodes and not
others. Whatever changes a tree comes to one step at each node: other nodes go into its slots, if
they fit, and the node is rebuilt around them.
-/

namespace ConfigTree.Yaml

theorem Node.asEntry_eq_some {n : Node} {e : Entry} : n.asEntry = some e ↔ n = .entry e := by
  cases n <;> simp [Node.asEntry]

theorem Node.asItem_eq_some {n : Node} {i : Item} : n.asItem = some i ↔ n = .item i := by
  cases n <;> simp [Node.asItem]

theorem Node.asScalar_eq_some {n : Node} {s : Scalar} : n.asScalar = some s ↔ n = .scalar s := by
  cases n <;> simp [Node.asScalar]

theorem Node.asValue_eq_some {n : Node} {v : Value} : n.asValue = some v ↔ n = v.toNode := by
  cases n <;> cases v <;> simp [Node.asValue, Value.toNode]

/-- The node without its identity and its children: what it says by itself. -/
def Node.bare : Node → Node
  | .document d => .document { d with id := .unnumbered, body := .empty }
  | .mapping m => .mapping { m with id := .unnumbered, entries := [] }
  | .entry e => .entry { e with id := .unnumbered, key := .fresh [] .plain [], value := .empty }
  | .sequence s => .sequence { s with id := .unnumbered, items := [] }
  | .item i => .item { i with id := .unnumbered, value := .empty }
  | .scalar s => .scalar { s with id := .unnumbered }

theorem Value.toNode_inj {v v' : Value} : v'.toNode = v.toNode ↔ v' = v := by
  refine ⟨fun same => ?_, congrArg toNode⟩
  simpa using congrArg Node.asValue same

/-- Where a node can stand. -/
inductive Slot where
  /-- Among the documents of a stream. -/
  | document
  /-- Among the entries of a mapping. -/
  | entry
  /-- Among the items of a sequence. -/
  | item
  /-- In front of the colon of an entry. -/
  | key
  /-- What a document, an entry or an item holds. A scalar has the given role there. -/
  | held (role : Role)
deriving DecidableEq, Repr

namespace Slot

/-- Whether a slot takes a node. -/
def fits : Slot → Node → Bool
  | document, n => n.asDocument.isSome
  | entry, n => n.asEntry.isSome
  | item, n => n.asItem.isSome
  | key, n => n.asScalar.isSome
  | held _, n => n.asValue.isSome

/-- What stands in a slot after an answer about the node in it. -/
def settle (slot : Slot) (child answer : Node) : Node := if slot.fits answer then answer else child

/-- The role of a scalar in a slot. -/
def role : Slot → Role
  | key => .key
  | held role => role
  | _ => .body

theorem settle_of_fits {slot : Slot} {child answer : Node} (fits : slot.fits answer = true) :
    slot.settle child answer = answer := if_pos fits

theorem settle_of_misfit {slot : Slot} {child answer : Node} (misfit : slot.fits answer = false) :
    slot.settle child answer = child := if_neg (by simp [misfit])

@[simp] theorem settle_self (slot : Slot) (child : Node) : slot.settle child child = child :=
  ite_self child

end Slot

/-- The children of a node in their slots. -/
def Node.slots : Node → List (Slot × Node)
  | .document d => [(.held .body, d.body.toNode)]
  | .mapping m => m.entries.map fun e => (.entry, .entry e)
  | .entry e => [(.key, .scalar e.key), (.held .value, e.value.toNode)]
  | .sequence s => s.items.map fun i => (.item, .item i)
  | .item i => [(.held .item, i.value.toNode)]
  | .scalar _ => []

theorem Node.children_eq (n : Node) : n.children = n.slots.map Prod.snd := by
  cases n <;> simp [Node.children, Node.slots]

theorem Node.mem_children_of_slots {n : Node} {place : Slot × Node} (h : place ∈ n.slots) :
    place.2 ∈ n.children := by
  rw [n.children_eq]
  exact List.mem_map_of_mem h

/-- The nodes of a stream in their slots. -/
def Stream.slots (s : Stream) : List (Slot × Node) :=
  s.documents.map (fun d => (.document, .document d)) ++ s.nodes.flatMap Node.slots

theorem Slot.fits_bare (slot : Slot) (n : Node) : slot.fits n.bare = slot.fits n := by
  cases slot <;> cases n <;> rfl

theorem Slot.fits_of_bare {n n' : Node} (h : n'.bare = n.bare) (slot : Slot) :
    slot.fits n' = slot.fits n := by
  rw [← slot.fits_bare, h, slot.fits_bare]

/-- What stands in a slot fits it. -/
theorem Node.fits_of_slots {n : Node} {place : Slot × Node} (h : place ∈ n.slots) :
    place.1.fits place.2 = true := by
  cases n with
  | document d =>
    obtain rfl := List.mem_singleton.mp h
    simp [Slot.fits]
  | mapping m =>
    obtain ⟨e, -, rfl⟩ := List.mem_map.mp h
    rfl
  | entry e =>
    rcases List.mem_cons.mp h with rfl | h
    · rfl
    · obtain rfl := List.mem_singleton.mp h
      simp [Slot.fits]
  | sequence s =>
    obtain ⟨i, -, rfl⟩ := List.mem_map.mp h
    rfl
  | item i =>
    obtain rfl := List.mem_singleton.mp h
    simp [Slot.fits]
  | scalar s => contradiction

theorem Node.settle_value (role : Role) (value : Value) (answer : Node) :
    (Slot.held role).settle value.toNode answer = (answer.asValue.getD value).toNode := by
  cases answer <;> rfl

theorem Node.settle_key (key : Scalar) (answer : Node) :
    Slot.key.settle (.scalar key) answer = .scalar (answer.asScalar.getD key) := by
  cases answer <;> rfl

theorem Node.settle_entry (e : Entry) (answer : Node) :
    Slot.entry.settle (.entry e) answer = .entry (answer.asEntry.getD e) := by
  cases answer <;> rfl

theorem Node.settle_item (i : Item) (answer : Node) :
    Slot.item.settle (.item i) answer = .item (answer.asItem.getD i) := by
  cases answer <;> rfl

theorem Node.settle_document (d : Document) (answer : Node) :
    Slot.document.settle (.document d) answer = .document (answer.asDocument.getD d) := by
  cases answer <;> rfl

/-! ## Rebuilding -/

/-- The node with other children, unless each is the node it was. -/
def Node.withChildren (revision : Nat) (n : Node) (children : List Node) : Node :=
  match n, children with
  | .document d, [body] => .document (d.withBody revision (body.asValue.getD d.body))
  | .mapping m, es => .mapping (m.withEntries revision (es.filterMap Node.asEntry))
  | .entry e, [key, value] =>
    .entry (e.withParts revision (key.asScalar.getD e.key) (value.asValue.getD e.value))
  | .sequence s, is => .sequence (s.withItems revision (is.filterMap Node.asItem))
  | .item i, [value] => .item (i.withValue revision (value.asValue.getD i.value))
  | n, _ => n

/-- How a node stands to the one that was rebuilt with `answer` in each of its slots. -/
structure Node.Rebuilt (revision : Nat) (answer : Slot × Node → Node) (n n' : Node) : Prop where
  id : n'.id = n.id.revised revision
  bare : n'.bare = n.bare
  slots : n'.slots = n.slots.map fun place => (place.1, answer place)

/-- What comes of a node with `answer` in each of its slots: the node it was if each answer is the
node that was there, and else a node rebuilt around the answers. -/
def Node.Takes (revision : Nat) (answer : Slot × Node → Node) (n : Node) : Prop :=
  ((n.slots.map answer).map Node.id = n.children.map Node.id ∧
    n.withChildren revision (n.slots.map answer) = n) ∨
  (¬ (n.slots.map answer).map Node.id = n.children.map Node.id ∧
    n.Rebuilt revision answer (n.withChildren revision (n.slots.map answer)))

section Takes

variable {revision : Nat} {answer : Slot × Node → Node}

theorem Slot.value_of_fits {role : Role} {n : Node} (h : (Slot.held role).fits n = true) :
    ∃ v : Value, n = v.toNode := by
  obtain ⟨v, isValue⟩ := Option.isSome_iff_exists.mp h
  exact ⟨v, Node.asValue_eq_some.mp isValue⟩

theorem Slot.scalar_of_fits {n : Node} (h : Slot.key.fits n = true) : ∃ s, n = .scalar s := by
  obtain ⟨s, isScalar⟩ := Option.isSome_iff_exists.mp h
  exact ⟨s, Node.asScalar_eq_some.mp isScalar⟩

/-- Answers that all are of one kind. -/
theorem map_eq_map_of_kind {α β : Type} {wrap : α → Node} {unwrap : Node → Option α}
    (unwraps : ∀ {n a}, unwrap n = some a ↔ n = wrap a) {answer : β → Node} {l : List β}
    (fits : ∀ b ∈ l, (unwrap (answer b)).isSome = true) :
    ∃ as : List α, l.map answer = as.map wrap := by
  induction l with
  | nil => exact ⟨[], rfl⟩
  | cons b l ih =>
    obtain ⟨a, isWrapped⟩ := Option.isSome_iff_exists.mp (fits b List.mem_cons_self)
    obtain ⟨as, others⟩ := ih fun c isIn => fits c (List.mem_cons_of_mem b isIn)
    exact ⟨a :: as, by rw [List.map_cons, others, unwraps.mp isWrapped, List.map_cons]⟩

theorem filterMap_asEntry (es : List Entry) :
    (es.map Node.entry).filterMap Node.asEntry = es := by
  rw [List.filterMap_map]
  exact List.filterMap_some

theorem filterMap_asItem (is : List Item) : (is.map Node.item).filterMap Node.asItem = is := by
  rw [List.filterMap_map]
  exact List.filterMap_some

theorem Document.takes {d : Document}
    (fits : ∀ place ∈ (Node.document d).slots, place.1.fits (answer place) = true) :
    (Node.document d).Takes revision answer := by
  obtain ⟨body, isBody⟩ := Slot.value_of_fits (fits _ List.mem_cons_self)
  have ids : [body.toNode].map Node.id = (Node.document d).children.map Node.id ↔
      body.id = d.body.id := by
    simp [Node.children]
  simp only [Node.Takes, Node.slots, List.map_cons, List.map_nil, isBody] at ids ⊢
  rw [ids, Node.withChildren, Document.withBody, Node.asValue_toNode, Option.getD_some]
  by_cases same : body.id = d.body.id
  · exact .inl ⟨same, by rw [if_pos same]⟩
  · rw [if_neg same]
    refine .inr ⟨same, rfl, rfl, ?_⟩
    simp [Node.slots, isBody]

theorem Mapping.takes {m : Mapping}
    (fits : ∀ place ∈ (Node.mapping m).slots, place.1.fits (answer place) = true) :
    (Node.mapping m).Takes revision answer := by
  obtain ⟨es, areEntries⟩ : ∃ es : List Entry, m.entries.map (fun e => answer (.entry, .entry e)) =
      es.map .entry := by
    refine map_eq_map_of_kind Node.asEntry_eq_some fun e isIn => ?_
    exact fits _ (List.mem_map_of_mem isIn)
  have slots : (Node.mapping m).slots.map answer = es.map .entry := by
    rw [← areEntries, Node.slots, List.map_map]
    rfl
  have ids : (es.map Node.entry).map Node.id = (Node.mapping m).children.map Node.id ↔
      es.map (·.id) = m.entries.map (·.id) := by
    rw [Node.children, List.map_map, List.map_map]
    rfl
  rw [Node.Takes, slots, ids, Node.withChildren, filterMap_asEntry, Mapping.withEntries]
  by_cases same : es.map (·.id) = m.entries.map (·.id)
  · exact .inl ⟨same, by rw [if_pos same]⟩
  · rw [if_neg same]
    refine .inr ⟨same, rfl, rfl, ?_⟩
    have paired := congrArg (List.map fun c => (Slot.entry, c)) areEntries
    rw [List.map_map, List.map_map] at paired
    rw [Node.slots, Node.slots, List.map_map]
    exact paired.symm

theorem Entry.takes {e : Entry}
    (fits : ∀ place ∈ (Node.entry e).slots, place.1.fits (answer place) = true) :
    (Node.entry e).Takes revision answer := by
  obtain ⟨key, isKey⟩ := Slot.scalar_of_fits (fits _ List.mem_cons_self)
  obtain ⟨value, isValue⟩ := Slot.value_of_fits
    (fits _ (List.mem_cons_of_mem _ List.mem_cons_self))
  have ids : [Node.scalar key, value.toNode].map Node.id = (Node.entry e).children.map Node.id ↔
      key.id = e.key.id ∧ value.id = e.value.id := by
    simp only [Node.children, List.map_cons, List.map_nil, Node.id_toNode, List.cons.injEq,
      and_true]
    rfl
  simp only [Node.Takes, Node.slots, List.map_cons, List.map_nil, isKey, isValue] at ids ⊢
  rw [ids, Node.withChildren, Entry.withParts]
  simp only [Node.asScalar, Node.asValue_toNode, Option.getD_some]
  by_cases same : key.id = e.key.id ∧ value.id = e.value.id
  · exact .inl ⟨same, by rw [if_pos same]⟩
  · rw [if_neg same]
    refine .inr ⟨same, rfl, rfl, ?_⟩
    simp [Node.slots, isKey, isValue]

theorem Sequence.takes {o : Sequence}
    (fits : ∀ place ∈ (Node.sequence o).slots, place.1.fits (answer place) = true) :
    (Node.sequence o).Takes revision answer := by
  obtain ⟨is, areItems⟩ : ∃ is : List Item, o.items.map (fun i => answer (.item, .item i)) =
      is.map .item := by
    refine map_eq_map_of_kind Node.asItem_eq_some fun i isIn => ?_
    exact fits _ (List.mem_map_of_mem isIn)
  have slots : (Node.sequence o).slots.map answer = is.map .item := by
    rw [← areItems, Node.slots, List.map_map]
    rfl
  have ids : (is.map Node.item).map Node.id = (Node.sequence o).children.map Node.id ↔
      is.map (·.id) = o.items.map (·.id) := by
    rw [Node.children, List.map_map, List.map_map]
    rfl
  rw [Node.Takes, slots, ids, Node.withChildren, filterMap_asItem, Sequence.withItems]
  by_cases same : is.map (·.id) = o.items.map (·.id)
  · exact .inl ⟨same, by rw [if_pos same]⟩
  · rw [if_neg same]
    refine .inr ⟨same, rfl, rfl, ?_⟩
    have paired := congrArg (List.map fun c => (Slot.item, c)) areItems
    rw [List.map_map, List.map_map] at paired
    rw [Node.slots, Node.slots, List.map_map]
    exact paired.symm

theorem Item.takes {i : Item}
    (fits : ∀ place ∈ (Node.item i).slots, place.1.fits (answer place) = true) :
    (Node.item i).Takes revision answer := by
  obtain ⟨value, isValue⟩ := Slot.value_of_fits (fits _ List.mem_cons_self)
  have ids : [value.toNode].map Node.id = (Node.item i).children.map Node.id ↔
      value.id = i.value.id := by
    simp [Node.children]
  simp only [Node.Takes, Node.slots, List.map_cons, List.map_nil, isValue] at ids ⊢
  rw [ids, Node.withChildren, Item.withValue, Node.asValue_toNode, Option.getD_some]
  by_cases same : value.id = i.value.id
  · exact .inl ⟨same, by rw [if_pos same]⟩
  · rw [if_neg same]
    refine .inr ⟨same, rfl, rfl, ?_⟩
    simp [Node.slots, isValue]

/-- A node takes answers that fit its slots. -/
theorem Node.takes {n : Node}
    (fits : ∀ place ∈ n.slots, place.1.fits (answer place) = true) :
    n.Takes revision answer := by
  cases n with
  | document d => exact Document.takes fits
  | mapping m => exact Mapping.takes fits
  | entry e => exact Entry.takes fits
  | sequence o => exact Sequence.takes fits
  | item i => exact Item.takes fits
  | scalar s => exact .inl ⟨rfl, rfl⟩

/-- A node stays the node it is, if all its children do, or is rebuilt. -/
theorem Node.kept_or_rebuilt {n : Node}
    (fits : ∀ place ∈ n.slots, place.1.fits (answer place) = true) :
    ((∀ place ∈ n.slots, (answer place).id = place.2.id) ∧
      n.withChildren revision (n.slots.map answer) = n) ∨
    ((¬ ∀ place ∈ n.slots, (answer place).id = place.2.id) ∧
      n.Rebuilt revision answer (n.withChildren revision (n.slots.map answer))) := by
  have takes : n.Takes revision answer := Node.takes fits
  rw [Node.Takes, Node.children_eq, List.map_map, List.map_map, List.map_inj_left] at takes
  exact takes

end Takes

end ConfigTree.Yaml
