import ConfigTree.Proofs.Yaml.Unnumbered
import ConfigTree.Yaml.Visit
import Mathlib.Data.List.Nodup

/-!
# Identity of nodes

Numbering gives the nodes of a tree consecutive places in printing order, so that no two nodes of a
stream that was read have the same identity.
-/

namespace ConfigTree.Yaml

/-- The node and all nodes below it, each before its children. -/
def Node.nodes : Node → List Node
  | .document d => d.nodes
  | .mapping m => m.nodes
  | .entry e => e.nodes
  | .sequence s => s.nodes
  | .item i => i.nodes
  | .scalar s => [.scalar s]

@[simp] theorem Node.nodes_toNode (v : Value) : v.toNode.nodes = v.nodes := by
  cases v <;> simp [Value.toNode, Node.nodes, Value.nodes]

theorem entriesNodes_eq (es : List Entry) :
    entriesNodes es = (es.map Node.entry).flatMap Node.nodes := by
  induction es with
  | nil => rfl
  | cons e es ih => simp [entriesNodes, ih, Node.nodes]

theorem itemsNodes_eq (is : List Item) :
    itemsNodes is = (is.map Node.item).flatMap Node.nodes := by
  induction is with
  | nil => rfl
  | cons i is ih => simp [itemsNodes, ih, Node.nodes]

/-- A node comes before what is below it. -/
theorem Node.nodes_eq (n : Node) : n.nodes = n :: n.children.flatMap Node.nodes := by
  cases n with
  | document d => rw [Node.children, List.flatMap_singleton, nodes_toNode, Node.nodes,
      Document.nodes]
  | mapping m =>
    obtain ⟨id, style, entries⟩ := m
    rw [Node.children, ← entriesNodes_eq, Node.nodes, Mapping.nodes]
  | entry e =>
    obtain ⟨id, lead, key, gap, value, comma⟩ := e
    rw [Node.children, List.flatMap_cons, List.flatMap_singleton, nodes_toNode, Node.nodes,
      Entry.nodes]
    rfl
  | sequence s =>
    obtain ⟨id, style, items⟩ := s
    rw [Node.children, ← itemsNodes_eq, Node.nodes, Sequence.nodes]
  | item i =>
    obtain ⟨id, lead, dash, value, comma⟩ := i
    rw [Node.children, List.flatMap_singleton, nodes_toNode, Node.nodes, Item.nodes]
  | scalar s => rfl

theorem Node.mem_nodes (n : Node) : n ∈ n.nodes := by
  rw [n.nodes_eq]
  exact List.mem_cons_self

/-- A node has more nodes than each of its children. -/
theorem Node.length_nodes_lt {n child : Node} (h : child ∈ n.children) :
    child.nodes.length < n.nodes.length := by
  have within : child.nodes.Sublist (n.children.flatMap Node.nodes) :=
    List.sublist_flatten_of_mem (List.mem_map_of_mem h)
  rw [n.nodes_eq, List.length_cons]
  exact Nat.lt_succ_of_le within.length_le

/-- Induction on trees: what holds of a node if it holds of its children holds of every node. -/
theorem Node.induction {P : Node → Prop} (step : ∀ n, (∀ child ∈ n.children, P child) → P n)
    (n : Node) : P n :=
  step n fun child _ => Node.induction step child
termination_by n.nodes.length
decreasing_by exact Node.length_nodes_lt ‹_›

theorem Node.nodes_sublist {m n : Node} (h : n ∈ m.nodes) : n.nodes.Sublist m.nodes := by
  induction m using Node.induction with
  | step m ih =>
    rw [m.nodes_eq, List.mem_cons] at h
    rcases h with rfl | h
    · exact List.Sublist.refl _
    · obtain ⟨child, isChild, below⟩ := List.mem_flatMap.mp h
      rw [m.nodes_eq]
      apply List.Sublist.cons
      exact (ih child isChild below).trans
        (List.sublist_flatten_of_mem (List.mem_map_of_mem isChild))

theorem Node.nodes_subset {m n : Node} (h : n ∈ m.nodes) : n.nodes ⊆ m.nodes :=
  (Node.nodes_sublist h).subset

theorem Node.children_sublist (n : Node) : n.children.Sublist n.nodes := by
  have each (l : List Node) : l.Sublist (l.flatMap Node.nodes) := by
    induction l with
    | nil => exact List.Sublist.refl _
    | cons child l ih =>
      rw [List.flatMap_cons, child.nodes_eq]
      exact (ih.trans (List.sublist_append_right _ _)).cons_cons child
  rw [n.nodes_eq]
  exact (each n.children).cons n

theorem Node.mem_nodes_of_child {n child : Node} (h : child ∈ n.children) : child ∈ n.nodes := by
  rw [n.nodes_eq]
  exact List.mem_cons_of_mem _ (List.mem_flatMap_of_mem h child.mem_nodes)

/-- Of a tree with all nodes at different places, the children are at different places, and none
is at the place of the node above them. -/
theorem Node.nodup_children {n : Node} (places : (n.nodes.map (·.id.place)).Nodup) :
    (n.children.map Node.id).Nodup ∧ ∀ child ∈ n.children, child.id ≠ n.id := by
  have ids : (n.nodes.map Node.id).Nodup := by
    apply List.Nodup.of_map (·.place)
    rwa [List.map_map]
  refine ⟨ids.sublist (n.children_sublist.map _), fun child isChild same => ?_⟩
  rw [n.nodes_eq, List.map_cons, List.nodup_cons] at ids
  refine ids.1 (List.mem_map.mpr ⟨child, ?_, same⟩)
  exact List.mem_flatMap_of_mem isChild child.mem_nodes

theorem Stream.nodes_sublist {s : Stream} {n : Node} (h : n ∈ s.nodes) :
    n.nodes.Sublist s.nodes := by
  obtain ⟨d, isDocument, within⟩ := List.mem_flatMap.mp h
  have nodes : Node.nodes (.document d) = d.nodes := rfl
  rw [← nodes] at within
  exact (Node.nodes_sublist within).trans
    (List.sublist_flatten_of_mem (List.mem_map_of_mem isDocument))

theorem Stream.mem_nodes {s : Stream} {m n : Node} (isNode : m ∈ s.nodes) (inside : n ∈ m.nodes) :
    n ∈ s.nodes :=
  (Stream.nodes_sublist isNode).subset inside

/-- The identities of `count` nodes numbered from `n` on. -/
def identitiesFrom (n count : Nat) : List NodeId := (List.range' n count).map firstAt

theorem identitiesFrom_succ (n count : Nat) :
    identitiesFrom n (count + 1) = firstAt n :: identitiesFrom (n + 1) count := by
  rw [identitiesFrom, List.range'_succ, List.map_cons, identitiesFrom]

theorem identitiesFrom_add (n count others : Nat) :
    identitiesFrom n (count + others) =
      identitiesFrom n count ++ identitiesFrom (n + count) others := by
  rw [identitiesFrom, ← List.range'_append_1, List.map_append, identitiesFrom, identitiesFrom]

theorem nodup_identitiesFrom (n count : Nat) :
    ((identitiesFrom n count).map NodeId.place).Nodup := by
  rw [identitiesFrom, List.map_map]
  have places : (NodeId.place ∘ firstAt) = id := rfl
  rw [places, List.map_id]
  exact List.nodup_range'

/-- How a tree is numbered: the nodes have consecutive numbers, and the next number is left. -/
def NumberedFrom (n : Nat) (nodes : List Node) (next : Nat) : Prop :=
  next = n + nodes.length ∧ nodes.map Node.id = identitiesFrom n nodes.length

theorem NumberedFrom.cons {n next : Nat} {node : Node} {nodes : List Node}
    (id : node.id = firstAt n)
    (h : NumberedFrom (n + 1) nodes next) : NumberedFrom n (node :: nodes) next := by
  obtain ⟨rfl, ids⟩ := h
  refine ⟨?_, ?_⟩
  · rw [List.length_cons]
    omega
  · rw [List.map_cons, id, ids, List.length_cons, identitiesFrom_succ]

theorem NumberedFrom.append {n mid next : Nat} {nodes others : List Node}
    (first : NumberedFrom n nodes mid) (second : NumberedFrom mid others next) :
    NumberedFrom n (nodes ++ others) next := by
  obtain ⟨rfl, ids⟩ := first
  obtain ⟨rfl, ids'⟩ := second
  refine ⟨?_, ?_⟩
  · rw [List.length_append, Nat.add_assoc]
  · rw [List.map_append, ids, ids', List.length_append, identitiesFrom_add]

theorem NumberedFrom.nil (n : Nat) : NumberedFrom n [] n := ⟨rfl, rfl⟩

mutual

theorem Value.numberedFrom (n : Nat) (v : Value) :
    NumberedFrom n (v.numbered n).1.nodes (v.numbered n).2 := by
  cases v with
  | scalar s => exact .cons rfl (.nil _)
  | mapping m => exact Mapping.numberedFrom n m
  | sequence s => exact Sequence.numberedFrom n s

theorem Mapping.numberedFrom (n : Nat) (m : Mapping) :
    NumberedFrom n (m.numbered n).1.nodes (m.numbered n).2 := by
  obtain ⟨id, style, entries⟩ := m
  exact .cons rfl (entries_numberedFrom (n + 1) entries)

theorem entries_numberedFrom (n : Nat) (es : List Entry) :
    NumberedFrom n (entriesNodes (numberedEntries n es).1) (numberedEntries n es).2 := by
  cases es with
  | nil => exact .nil n
  | cons e es => exact (Entry.numberedFrom n e).append (entries_numberedFrom _ es)

theorem Entry.numberedFrom (n : Nat) (e : Entry) :
    NumberedFrom n (e.numbered n).1.nodes (e.numbered n).2 := by
  obtain ⟨id, lead, key, gap, value, comma⟩ := e
  exact .cons rfl (.cons rfl (Value.numberedFrom _ value))

theorem Sequence.numberedFrom (n : Nat) (s : Sequence) :
    NumberedFrom n (s.numbered n).1.nodes (s.numbered n).2 := by
  obtain ⟨id, style, items⟩ := s
  exact .cons rfl (items_numberedFrom (n + 1) items)

theorem items_numberedFrom (n : Nat) (is : List Item) :
    NumberedFrom n (itemsNodes (numberedItems n is).1) (numberedItems n is).2 := by
  cases is with
  | nil => exact .nil n
  | cons i is => exact (Item.numberedFrom n i).append (items_numberedFrom _ is)

theorem Item.numberedFrom (n : Nat) (i : Item) :
    NumberedFrom n (i.numbered n).1.nodes (i.numbered n).2 := by
  obtain ⟨id, lead, dash, value, comma⟩ := i
  exact .cons rfl (Value.numberedFrom _ value)

end

theorem documents_numberedFrom (n : Nat) (ds : List Document) :
    NumberedFrom n ((numberedDocuments n ds).1.flatMap Document.nodes)
      (numberedDocuments n ds).2 := by
  induction ds generalizing n with
  | nil => exact .nil n
  | cons d ds ih => exact .append (.cons rfl (d.body.numberedFrom (n + 1))) (ih _)

/-- The nodes of a stream that was read are the first ones at their places, and no place is
taken twice. -/
theorem ids_of_parse {text : Text} {s : Stream} (h : parse text = .ok s) :
    s.id = firstAt 0 ∧ s.nodes.map Node.id = identitiesFrom 1 s.nodes.length := by
  obtain ⟨raw, -, rfl, -⟩ := unnumbered_of_parse h
  exact ⟨rfl, (documents_numberedFrom 1 raw.documents).2⟩

/-- The nodes of a stream that was read are at different places. -/
theorem places_of_parse {text : Text} {s : Stream} (h : parse text = .ok s) :
    (s.nodes.map (·.id.place)).Nodup := by
  have nodup := nodup_identitiesFrom 1 s.nodes.length
  rwa [← (ids_of_parse h).2, List.map_map] at nodup

theorem nodup_of_parse {text : Text} {s : Stream} (h : parse text = .ok s) :
    (s.nodes.map Node.id).Nodup := by
  apply List.Nodup.of_map NodeId.place
  rw [List.map_map]
  exact places_of_parse h

theorem revision_of_parse {text : Text} {s : Stream} (h : parse text = .ok s) {n : Node}
    (inside : n ∈ s.nodes) : n.id.revision = 0 := by
  have id := List.mem_map_of_mem (f := Node.id) inside
  rw [(ids_of_parse h).2, identitiesFrom, List.mem_map] at id
  obtain ⟨place, -, id⟩ := id
  rw [← id]
  rfl

theorem older_of_parse {text : Text} {s : Stream} (h : parse text = .ok s) {n : Node}
    (inside : n ∈ s.nodes) : n.id.revision ≠ s.nextRevision := by
  rw [revision_of_parse h inside]
  exact (Nat.succ_ne_zero _).symm

/-- In a stream that was read a node is known by its identity. -/
theorem eq_of_id {source : Text} {s : Stream} (parsed : parse source = .ok s) {m n : Node}
    (isNode : m ∈ s.nodes) (isNode' : n ∈ s.nodes) (same : m.id = n.id) : m = n :=
  List.inj_on_of_nodup_map (nodup_of_parse parsed) isNode isNode' same

end ConfigTree.Yaml
