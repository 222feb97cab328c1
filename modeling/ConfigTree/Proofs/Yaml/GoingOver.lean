import ConfigTree.Proofs.Yaml.Addresses
import ConfigTree.Proofs.Yaml.Slots
import ConfigTree.Yaml.Walk

/-!
# Going over trees

Visiting and walking go over the tree kind by kind. For a node of any kind both come to one step:
the answers about the children are settled in their slots, and the node is rebuilt around them.
-/

namespace ConfigTree.Yaml

namespace Node

variable {v : Visitor} {revision : Nat}

/-- The node with what is below it visited. -/
def visitInside (v : Visitor) (revision : Nat) (path : List Text) : Node → Node
  | .document d => .document (d.withBody revision (d.body.visit v revision path))
  | .mapping m => .mapping (m.visitInside v revision path)
  | .entry e => .entry (e.visitInside v revision path)
  | .sequence s => .sequence (s.visitInside v revision path)
  | .item i => .item (i.visitInside v revision path)
  | .scalar s => .scalar s

/-- The answer about the node. -/
def visit (v : Visitor) (revision : Nat) (path : List Text) (n : Node) : Node :=
  v path n (n.visitInside v revision path)

theorem value_visit (role : Role) (path : List Text) (value : Value) :
    (Slot.held role).settle value.toNode (value.toNode.visit v revision path) =
      (value.visit v revision path).toNode := by
  rw [settle_value]
  cases value <;> rfl

theorem visitEntries_eq (path : List Text) (es : List Entry) :
    visitEntries v revision path es =
      (es.map fun e =>
        Slot.entry.settle (.entry e) ((Node.entry e).visit v revision path)).filterMap
          Node.asEntry := by
  induction es with
  | nil => rfl
  | cons e es ih =>
    rw [visitEntries, ih, List.map_cons, settle_entry]
    rfl

theorem visitItems_eq (path : List Text) (is : List Item) :
    visitItems v revision path is =
      (is.map fun i => Slot.item.settle (.item i) ((Node.item i).visit v revision path)).filterMap
        Node.asItem := by
  induction is with
  | nil => rfl
  | cons i is ih =>
    rw [visitItems, ih, List.map_cons, settle_item]
    rfl

/-- Visiting what is below a node settles the answers about its children and rebuilds it. -/
theorem visitInside_eq (path : List Text) (n : Node) :
    n.visitInside v revision path = n.withChildren revision (n.slots.map fun place =>
      place.1.settle place.2 (place.2.visit v revision (path ++ n.ownKeys))) := by
  cases n with
  | document d =>
    simp only [slots, List.map_cons, List.map_nil, value_visit, ownKeys, List.append_nil,
      withChildren, asValue_toNode, Option.getD_some, visitInside]
  | mapping m =>
    obtain ⟨id, style, entries⟩ := m
    simp only [slots, List.map_map, ownKeys, List.append_nil, withChildren, visitInside,
      Mapping.visitInside, visitEntries_eq]
    rfl
  | entry e =>
    obtain ⟨id, lead, key, gap, value, comma⟩ := e
    simp only [slots, List.map_cons, List.map_nil, value_visit, settle_key, ownKeys, withChildren,
      asValue_toNode, asScalar, Option.getD_some, visitInside, Entry.visitInside]
    rfl
  | sequence s =>
    obtain ⟨id, style, items⟩ := s
    simp only [slots, List.map_map, ownKeys, List.append_nil, withChildren, visitInside,
      Sequence.visitInside, visitItems_eq]
    rfl
  | item i =>
    obtain ⟨id, lead, dash, value, comma⟩ := i
    simp only [slots, List.map_cons, List.map_nil, value_visit, ownKeys, List.append_nil,
      withChildren, asValue_toNode, Option.getD_some, visitInside, Item.visitInside]
  | scalar s => rfl

theorem document_visit (d : Document) :
    Node.document (d.visit v revision) =
      Slot.document.settle (.document d) ((Node.document d).visit v revision []) := by
  rw [settle_document]
  rfl

section Walk

variable {m : Type → Type} [Monad m] {w : Walker m}

/-- The node with what is below it walked over. -/
def walkInside (w : Walker m) (revision : Nat) : Node → m Node
  | .document d => .document <$> d.walkInside w revision
  | .mapping o => .mapping <$> o.walkInside w revision
  | .entry e => .entry <$> e.walkInside w revision
  | .sequence o => .sequence <$> o.walkInside w revision
  | .item i => .item <$> i.walkInside w revision
  | .scalar s => pure (.scalar s)

/-- The answer about the node. -/
def walk (w : Walker m) (revision : Nat) (n : Node) : m Node := w (n.walkInside w revision) n

variable [LawfulMonad m]

theorem value_walk (role : Role) (value : Value) :
    (Slot.held role).settle value.toNode <$> value.toNode.walk w revision =
      Value.toNode <$> value.walk w revision := by
  have settled : (Slot.held role).settle value.toNode =
      fun answer => (answer.asValue.getD value).toNode := funext (settle_value role value)
  rw [settled]
  cases value <;>
    simp only [Value.walk, walk, walkInside, Value.toNode, map_eq_pure_bind, bind_assoc, pure_bind]

theorem key_walk (key : Scalar) :
    Slot.key.settle (.scalar key) <$> (Node.scalar key).walk w revision =
      .scalar <$> key.walk w := by
  have settled : Slot.key.settle (.scalar key) =
      fun answer => .scalar (answer.asScalar.getD key) := funext (settle_key key)
  rw [settled]
  simp only [Scalar.walk, walk, walkInside, map_eq_pure_bind, bind_assoc, pure_bind]

theorem walkEntries_eq (es : List Entry) :
    walkEntries w revision es = List.filterMap Node.asEntry <$> es.mapM fun e =>
      Slot.entry.settle (.entry e) <$> (Node.entry e).walk w revision := by
  induction es with
  | nil => simp [walkEntries]
  | cons e es ih =>
    have settled : Slot.entry.settle (.entry e) =
        fun answer => .entry (answer.asEntry.getD e) := funext (settle_entry e)
    simp only [walkEntries, ih, List.mapM_cons, settled, walk, walkInside, map_eq_pure_bind,
      bind_assoc, pure_bind, List.filterMap_cons, asEntry]

theorem walkItems_eq (is : List Item) :
    walkItems w revision is = List.filterMap Node.asItem <$> is.mapM fun i =>
      Slot.item.settle (.item i) <$> (Node.item i).walk w revision := by
  induction is with
  | nil => simp [walkItems]
  | cons i is ih =>
    have settled : Slot.item.settle (.item i) =
        fun answer => .item (answer.asItem.getD i) := funext (settle_item i)
    simp only [walkItems, ih, List.mapM_cons, settled, walk, walkInside, map_eq_pure_bind,
      bind_assoc, pure_bind, List.filterMap_cons, asItem]

/-- Walking over what is below a node settles the answers about its children, one after the other,
and rebuilds it. -/
theorem walkInside_eq (n : Node) :
    n.walkInside w revision = n.withChildren revision <$> n.slots.mapM fun place =>
      place.1.settle place.2 <$> place.2.walk w revision := by
  cases n with
  | document d =>
    simp only [slots, List.mapM_cons, List.mapM_nil, value_walk]
    simp only [withChildren, walkInside, Document.walkInside, map_eq_pure_bind, bind_assoc,
      pure_bind, asValue_toNode, Option.getD_some]
  | mapping o =>
    obtain ⟨id, style, entries⟩ := o
    simp only [slots, List.mapM_map, withChildren, walkInside, Mapping.walkInside, walkEntries_eq,
      map_eq_pure_bind, bind_assoc, pure_bind]
    rfl
  | entry e =>
    obtain ⟨id, lead, key, gap, value, comma⟩ := e
    simp only [slots, List.mapM_cons, List.mapM_nil, value_walk, key_walk]
    simp only [withChildren, walkInside, Entry.walkInside, map_eq_pure_bind, bind_assoc, pure_bind,
      asValue_toNode, asScalar, Option.getD_some]
  | sequence o =>
    obtain ⟨id, style, items⟩ := o
    simp only [slots, List.mapM_map, withChildren, walkInside, Sequence.walkInside, walkItems_eq,
      map_eq_pure_bind, bind_assoc, pure_bind]
    rfl
  | item i =>
    obtain ⟨id, lead, dash, value, comma⟩ := i
    simp only [slots, List.mapM_cons, List.mapM_nil, value_walk]
    simp only [withChildren, walkInside, Item.walkInside, map_eq_pure_bind, bind_assoc, pure_bind,
      asValue_toNode, Option.getD_some]
  | scalar s => simp [slots, walkInside, withChildren]

theorem document_walk (d : Document) :
    d.walk w revision =
      (fun answer : Node => answer.asDocument.getD d) <$> (Node.document d).walk w revision := by
  rw [map_eq_pure_bind]
  rfl

end Walk

end Node

theorem mapM_congr {m : Type → Type} [Monad m] [LawfulMonad m] {α β : Type} {f g : α → m β}
    {l : List α} (h : ∀ a ∈ l, f a = g a) :
    l.mapM f = l.mapM g := by
  induction l with
  | nil => simp
  | cons a l ih =>
    obtain ⟨first, others⟩ := List.forall_mem_cons.mp h
    rw [List.mapM_cons, List.mapM_cons, first, ih others]

/-- One computation after the other, where the state at each of them is known from those before. -/
theorem run_mapM {σ α β : Type} {act : α → StateM σ β} {result : α → β} (state : List α → σ)
    {l : List α} (each : ∀ a ∈ l, ∀ front,
      (act a).run (state front) = pure (result a, state (front ++ [a]))) :
    (l.mapM act).run (state []) = pure (l.map result, state l) := by
  suffices ∀ front, (l.mapM act).run (state front) = pure (l.map result, state (front ++ l)) from
    this []
  induction l with
  | nil => simp
  | cons a l ih =>
    intro front
    obtain ⟨first, others⟩ := List.forall_mem_cons.mp each
    simp [List.mapM_cons, first, ih others]

end ConfigTree.Yaml
