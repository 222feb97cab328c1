import ConfigTree.Proofs.Yaml.Slots
import ConfigTree.Yaml.Substitute

/-!
# Trees with one scalar rewritten

Putting a changed node in the place of a child changes nothing in a node that has no such child. In
a node that has it exactly that child is exchanged, and the node is rebuilt. From a scalar up to any
node above it this gives a tree with one scalar rewritten: the nodes above the scalar are rebuilt,
and every other node is the node it was.
-/

namespace ConfigTree.Yaml

/-- What stands in a slot with `after` in the place of the node `before`. -/
def exchanged (before after : Node) (place : Slot × Node) : Node :=
  if place.2.same before then place.1.settle place.2 after else place.2

/-- The node `before` stands in the slot, and `after` is another node and fits. -/
def Exchanges (before after : Node) (place : Slot × Node) : Prop :=
  place.2.same before = true ∧ place.1.fits after = true ∧ after.same before = false

instance (before after : Node) (place : Slot × Node) : Decidable (Exchanges before after place) :=
  inferInstanceAs (Decidable (_ ∧ _ ∧ _))

/-- How a node stands to the one that was rebuilt with `after` as the child with the number `k` and
all else as it was. -/
structure Node.RebuiltWith (revision k : Nat) (n after n' : Node) : Prop where
  id : n'.id = n.id.revised revision
  bare : n'.bare = n.bare
  children : n'.children = n.children.set k after

section Exchange

variable {revision k : Nat} {parent before after : Node} {place : Slot × Node}

theorem toNode_exchange (before : Node) {α : Type} {slot : Slot} {toNode : α → Node}
    {ofNode : Node → Option α} {child : α}
    (settles : slot.settle (toNode child) after = toNode ((ofNode after).getD child)) :
    toNode (exchange toNode ofNode before after child) =
      exchanged before after (slot, toNode child) := by
  rw [exchange, exchanged, settles]
  split <;> rfl

theorem exchanged_of_ne (h : place.2.id ≠ before.id) : exchanged before after place = place.2 := by
  rw [exchanged, Node.same, beq_false_of_ne h, if_neg Bool.false_ne_true]

theorem Exchanges.id (h : Exchanges before after place) : place.2.id = before.id :=
  beq_iff_eq.mp h.1

theorem Exchanges.ne (h : Exchanges before after place) : after.id ≠ place.2.id := by
  rw [h.id]
  exact ne_of_beq_false h.2.2

theorem exchanged_of_exchanges (h : Exchanges before after place) :
    exchanged before after place = after := by
  rw [exchanged, if_pos h.1, Slot.settle_of_fits h.2.1]

/-- Without an exchange the same node stands in the slot. -/
theorem id_exchanged (h : ¬ Exchanges before after place) :
    (exchanged before after place).id = place.2.id := by
  by_cases same : place.2.id = before.id
  · cases fits : place.1.fits after with
    | false => rw [exchanged, Slot.settle_of_misfit fits, ite_self]
    | true =>
      have itself : after.same before = true := by
        by_contra other
        exact h ⟨beq_iff_eq.mpr same, fits, eq_false_of_ne_true other⟩
      rw [exchanged, Slot.settle_of_fits fits, same]
      split
      · exact beq_iff_eq.mp itself
      · exact same
  · rw [exchanged_of_ne same]

theorem fits_exchanged (fits : place.1.fits place.2 = true) :
    place.1.fits (exchanged before after place) = true := by
  rw [exchanged, Slot.settle]
  split_ifs with same fits' <;> assumption

/-- Substitution puts into each slot what stands in it after the exchange. -/
theorem Node.substitute_eq (revision : Nat) (parent before after : Node) :
    parent.substitute revision before after =
      parent.withChildren revision (parent.slots.map (exchanged before after)) := by
  have value (role : Role) (v : Value) := toNode_exchange before (settle_value role v after)
  cases parent with
  | document d =>
    simp only [substitute, slots, List.map_cons, List.map_nil, ← value, withChildren,
      asValue_toNode, Option.getD_some]
  | mapping m =>
    have entry (e : Entry) := toNode_exchange before (settle_entry e after)
    simp only [substitute, slots, List.map_map, Function.comp_def, ← entry, withChildren]
    rw [← filterMap_asEntry (m.entries.map _), List.map_map]
    rfl
  | entry e =>
    have key := toNode_exchange before (settle_key e.key after)
    simp only [substitute, slots, List.map_cons, List.map_nil, ← key, ← value, withChildren,
      asScalar, asValue_toNode, Option.getD_some]
  | sequence s =>
    have item (i : Item) := toNode_exchange before (settle_item i after)
    simp only [substitute, slots, List.map_map, Function.comp_def, ← item, withChildren]
    rw [← filterMap_asItem (s.items.map _), List.map_map]
    rfl
  | item i =>
    simp only [substitute, slots, List.map_cons, List.map_nil, ← value, withChildren,
      asValue_toNode, Option.getD_some]
  | scalar s => rfl

/-- A node in which nothing is exchanged stays the node it is, and any other is rebuilt. -/
theorem Node.substitute_kept_or_rebuilt (revision : Nat) (parent before after : Node) :
    ((∀ place ∈ parent.slots, (exchanged before after place).id = place.2.id) ∧
      parent.substitute revision before after = parent) ∨
    ((¬ ∀ place ∈ parent.slots, (exchanged before after place).id = place.2.id) ∧
      parent.Rebuilt revision (exchanged before after)
        (parent.substitute revision before after)) := by
  rw [parent.substitute_eq]
  exact Node.kept_or_rebuilt fun place isSlot => fits_exchanged (Node.fits_of_slots isSlot)

theorem Node.substitute_of_not_exchanges
    (h : ∀ place ∈ parent.slots, ¬ Exchanges before after place) :
    parent.substitute revision before after = parent := by
  rcases parent.substitute_kept_or_rebuilt revision before after with ⟨-, kept⟩ | ⟨differs, -⟩
  · exact kept
  · exact absurd (fun place isSlot => id_exchanged (h place isSlot)) differs

/-- A node in its own place changes nothing. -/
theorem Node.substitute_self (revision : Nat) (parent before : Node) :
    parent.substitute revision before before = parent := by
  refine Node.substitute_of_not_exchanges fun place _ exchanges => ?_
  exact exchanges.ne exchanges.id.symm

/-- A node that is no child is not exchanged. -/
theorem Node.substitute_of_ne (h : ∀ child ∈ parent.children, child.id ≠ before.id) :
    parent.substitute revision before after = parent := by
  refine Node.substitute_of_not_exchanges fun place isSlot exchanges => ?_
  exact h place.2 (Node.mem_children_of_slots isSlot) exchanges.id

/-- Of children with different identities only one is exchanged. -/
theorem Node.substitute_of_exchanges (nodup : (parent.children.map Node.id).Nodup)
    (found : parent.slots[k]? = some place) (exchanges : Exchanges before after place) :
    parent.RebuiltWith revision k after (parent.substitute revision before after) := by
  rcases parent.substitute_kept_or_rebuilt revision before after with ⟨same, -⟩ | ⟨-, rebuilt⟩
  · have same := same place (List.mem_of_getElem? found)
    rw [exchanged_of_exchanges exchanges] at same
    exact absurd same exchanges.ne
  · refine ⟨rebuilt.id, rebuilt.bare, ?_⟩
    rw [Node.children_eq, rebuilt.slots, List.map_map, parent.children_eq]
    apply List.ext_getElem?
    intro j
    rw [List.getElem?_set, List.getElem?_map, List.getElem?_map, List.length_map]
    have inside : k < parent.slots.length := (List.getElem?_eq_some_iff.mp found).1
    by_cases same : k = j
    · subst same
      rw [if_pos rfl, if_pos inside, found]
      exact congrArg some (exchanged_of_exchanges exchanges)
    · rw [if_neg same]
      cases found' : parent.slots[j]? with
      | none => rfl
      | some place' =>
        have other : place'.2.id ≠ before.id := by
          intro equal
          refine same ((List.getElem?_inj ?_ nodup).mp ?_)
          · rwa [List.length_map, parent.children_eq, List.length_map]
          · simp only [parent.children_eq, List.getElem?_map, found, found', Option.map_some]
            rw [exchanges.id, equal]
        exact congrArg some (exchanged_of_ne other)

end Exchange

/-! ## One scalar rewritten -/

/-- The second node is the first with another text for the scalar `t`, which stands at the address
`path`. The nodes above the scalar are rebuilt. -/
inductive RewrittenAt (revision : Nat) (t : Scalar) (text : Text) :
    List Nat → Node → Node → Prop where
  | scalar (changed : text ≠ t.text) :
      RewrittenAt revision t text [] (.scalar t) (.scalar (t.withText revision text))
  | child {k : Nat} {path : List Nat} {n n' c c' : Node} (found : n.children[k]? = some c)
      (edit : RewrittenAt revision t text path c c') (id : n'.id = n.id.revised revision)
      (bare : n'.bare = n.bare) (children : n'.children = n.children.set k c') :
      RewrittenAt revision t text (k :: path) n n'

namespace RewrittenAt

variable {revision : Nat} {t : Scalar} {text : Text} {path : List Nat} {n n' : Node}

theorem id_eq (h : RewrittenAt revision t text path n n') : n'.id = n.id.revised revision := by
  cases h with
  | scalar changed => simp [Scalar.withText, changed, Node.id]
  | child found edit id bare children => exact id

theorem fits (h : RewrittenAt revision t text path n n') (slot : Slot) :
    slot.fits n' = slot.fits n := by
  cases h with
  | scalar changed => cases slot <;> rfl
  | child found edit id bare children => exact slot.fits_of_bare bare

theorem eq_of_scalar {s : Scalar} (h : RewrittenAt revision t text path (.scalar s) n') :
    n' = .scalar (t.withText revision text) := by
  cases h with
  | scalar changed => rfl
  | child found => contradiction

theorem entry {e : Entry} (h : RewrittenAt revision t text path (.entry e) n') :
    ∃ e', n' = .entry e' := by
  have isEntry := h.fits .entry
  rw [Slot.fits, Slot.fits, Node.asEntry, Option.isSome_some] at isEntry
  obtain ⟨e', same⟩ := Option.isSome_iff_exists.mp isEntry
  exact ⟨e', Node.asEntry_eq_some.mp same⟩

/-- In the place of a child, which is known by its identity, a rewritten one is put. -/
theorem substitute_child {parent before after : Node} {k : Nat}
    (nodup : (parent.children.map Node.id).Nodup) (found : parent.children[k]? = some before)
    (older : before.id.revision ≠ revision) (edit : RewrittenAt revision t text path before after) :
    parent.RebuiltWith revision k after (parent.substitute revision before after) := by
  rw [parent.children_eq, List.getElem?_map, Option.map_eq_some_iff] at found
  obtain ⟨place, isSlot, rfl⟩ := found
  refine Node.substitute_of_exchanges nodup isSlot ⟨beq_self_eq_true _, ?_, ?_⟩
  · rw [edit.fits]
    exact Node.fits_of_slots (List.mem_of_getElem? isSlot)
  · apply beq_false_of_ne
    rw [edit.id_eq]
    exact NodeId.revised_ne older

theorem substitute {parent before after : Node} {k : Nat}
    (nodup : (parent.children.map Node.id).Nodup) (found : parent.children[k]? = some before)
    (older : before.id.revision ≠ revision) (edit : RewrittenAt revision t text path before after) :
    RewrittenAt revision t text (k :: path) parent (parent.substitute revision before after) := by
  have rebuilt := edit.substitute_child nodup found older
  exact .child found edit rebuilt.id rebuilt.bare rebuilt.children

end RewrittenAt

/-- The two trees differ in the text of the scalar `t` at the address `path` and in the identities
of that scalar and of the nodes above it. -/
structure DifferAt (path : List Nat) (t : Scalar) (text : Text) (n n' : Node) : Prop where
  before : n.descendant? path = some (.scalar t)
  after : ∃ id, n'.descendant? path = some (.scalar { t with id, text }) ∧ id ≠ t.id
  /-- The nodes above the scalar are other nodes, and say what they said. -/
  above : ∀ q, q <+: path → q ≠ path →
    ∃ m m', n.descendant? q = some m ∧ n'.descendant? q = some m' ∧
    m'.id ≠ m.id ∧ m'.bare = m.bare ∧ m'.children.length = m.children.length
  /-- Every other node is the node it was. -/
  others : ∀ q, ¬ q <+: path → n'.descendant? q = n.descendant? q

theorem DifferAt.ne {path : List Nat} {t : Scalar} {text : Text} {n n' : Node}
    (h : DifferAt path t text n n') : n' ≠ n := by
  rintro rfl
  obtain ⟨id, after, other⟩ := h.after
  rw [h.before] at after
  exact other (congrArg Scalar.id (Node.scalar.inj (Option.some.inj after))).symm

theorem Node.mem_nodes_of_descendant {n m : Node} {q : List Nat} (h : n.descendant? q = some m) :
    m ∈ n.nodes := by
  induction q generalizing n with
  | nil =>
    obtain rfl := Option.some.inj h
    exact n.mem_nodes
  | cons j q ih =>
    obtain ⟨child, isChild, below⟩ := Option.bind_eq_some_iff.mp h
    exact Node.nodes_subset (Node.mem_nodes_of_child (List.mem_of_getElem? isChild)) (ih below)

theorem Stream.mem_nodes_of_document {s : Stream} {d : Document} (h : d ∈ s.documents) :
    Node.document d ∈ s.nodes :=
  List.mem_flatMap_of_mem h (Node.document d).mem_nodes

theorem Stream.mem_nodes_of_nodeAt {s : Stream} {address : List Nat} {n : Node}
    (h : s.nodeAt? address = some n) : n ∈ s.nodes := by
  cases address with
  | nil => contradiction
  | cons i is =>
    obtain ⟨d, found, below⟩ := Option.bind_eq_some_iff.mp h
    have isNode := Stream.mem_nodes_of_document (List.mem_of_getElem? found)
    exact Stream.mem_nodes isNode (Node.mem_nodes_of_descendant below)

theorem map_set_of_eq {α β : Type} {f : α → β} {l : List α} {k : Nat} {a a' : α}
    (found : l[k]? = some a) (same : f a' = f a) : (l.set k a').map f = l.map f := by
  induction l generalizing k with
  | nil => rfl
  | cons x l ih =>
    cases k with
    | zero =>
      obtain rfl : x = a := Option.some.inj found
      rw [List.set_cons_zero, List.map_cons, List.map_cons, same]
    | succ k => rw [List.set_cons_succ, List.map_cons, List.map_cons, ih found]

namespace RewrittenAt

variable {revision : Nat} {t : Scalar} {text : Text} {path : List Nat} {n n' : Node}

/-- Rebuilt nodes keep their places. -/
theorem places_eq (h : RewrittenAt revision t text path n n') :
    n'.nodes.map (·.id.place) = n.nodes.map (·.id.place) := by
  induction h with
  | scalar changed => simp [Node.nodes, Scalar.withText, changed, Node.id]
  | @child k path n n' c c' found edit id bare children ih =>
    have below : (n'.children.map fun child => child.nodes.map (·.id.place)) =
        n.children.map fun child => child.nodes.map (·.id.place) := by
      rw [children]
      exact map_set_of_eq found ih
    rw [n.nodes_eq, n'.nodes_eq, List.map_cons, List.map_cons, List.map_flatMap, List.map_flatMap,
      List.flatMap_def, List.flatMap_def, below, id, NodeId.place_revised]

/-- The nodes of the new tree are nodes of the old one or belong to the new revision. -/
theorem mem_nodes (h : RewrittenAt revision t text path n n') {m : Node} (inside : m ∈ n'.nodes) :
    m ∈ n.nodes ∨ m.id.revision = revision := by
  induction h with
  | scalar changed =>
    obtain rfl := List.mem_singleton.mp inside
    right
    rw [(RewrittenAt.scalar changed).id_eq, NodeId.revision_revised]
  | @child k path n n' c c' found edit id bare children ih =>
    rw [n'.nodes_eq, children] at inside
    rcases List.mem_cons.mp inside with rfl | inside
    · right
      rw [id, NodeId.revision_revised]
    · obtain ⟨child, isChild, below⟩ := List.mem_flatMap.mp inside
      rcases List.mem_or_eq_of_mem_set isChild with isChild | rfl
      · exact .inl (Node.nodes_subset (Node.mem_nodes_of_child isChild) below)
      · have isChild := Node.mem_nodes_of_child (List.mem_of_getElem? found)
        exact (ih below).imp_left fun before => Node.nodes_subset isChild before

/-- The scalar, before and after. -/
theorem descendant?_path (h : RewrittenAt revision t text path n n') :
    text ≠ t.text ∧ n.descendant? path = some (.scalar t) ∧
      n'.descendant? path = some (.scalar (t.withText revision text)) := by
  induction h with
  | scalar changed => exact ⟨changed, rfl, rfl⟩
  | @child k path n n' c c' found edit id bare children ih =>
    obtain ⟨changed, before, after⟩ := ih
    have found' : n'.children[k]? = some c' := by
      rw [children, List.getElem?_set_self (List.getElem?_eq_some_iff.mp found).1]
    refine ⟨changed, ?_, ?_⟩
    · rw [Node.descendant?, found]
      exact before
    · rw [Node.descendant?, found']
      exact after

/-- Away from the scalar and the nodes above it nothing changes. -/
theorem descendant?_others (h : RewrittenAt revision t text path n n') {q : List Nat}
    (apart : ¬ q <+: path) : n'.descendant? q = n.descendant? q := by
  induction h generalizing q with
  | scalar changed =>
    cases q with
    | nil => exact absurd (List.nil_prefix) apart
    | cons j q => rfl
  | @child k path n n' c c' found edit id bare children ih =>
    cases q with
    | nil => exact absurd (List.nil_prefix) apart
    | cons j q =>
      rw [Node.descendant?, Node.descendant?, children]
      by_cases same : j = k
      · subst same
        rw [List.getElem?_set_self (List.getElem?_eq_some_iff.mp found).1, found]
        apply ih
        intro within
        exact apart ((List.prefix_cons_inj j).mpr within)
      · rw [List.getElem?_set_ne (Ne.symm same)]

/-- The nodes above the scalar are rebuilt. -/
theorem descendant?_above (h : RewrittenAt revision t text path n n')
    (older : ∀ m ∈ n.nodes, m.id.revision ≠ revision) {q : List Nat} (within : q <+: path)
    (proper : q ≠ path) :
    ∃ m m', n.descendant? q = some m ∧ n'.descendant? q = some m' ∧ m'.id ≠ m.id ∧
      m'.bare = m.bare ∧ m'.children.length = m.children.length := by
  induction h generalizing q with
  | scalar changed => exact absurd (List.prefix_nil.mp within) proper
  | @child k path n n' c c' found edit id bare children ih =>
    cases q with
    | nil =>
      refine ⟨n, n', rfl, rfl, ?_, bare, ?_⟩
      · rw [id]
        exact NodeId.revised_ne (older n n.mem_nodes)
      · rw [children, List.length_set]
    | cons j q =>
      obtain ⟨rfl, within'⟩ := List.cons_prefix_cons.mp within
      have below : ∀ m ∈ c.nodes, m.id.revision ≠ revision := by
        intro m inside
        have isChild := Node.mem_nodes_of_child (List.mem_of_getElem? found)
        exact older m (Node.nodes_subset isChild inside)
      have found' : n'.children[j]? = some c' := by
        rw [children, List.getElem?_set_self (List.getElem?_eq_some_iff.mp found).1]
      rw [Node.descendant?, Node.descendant?, found, found']
      apply ih below within'
      intro same
      exact proper (congrArg (j :: ·) same)

theorem differAt (h : RewrittenAt revision t text path n n')
    (older : ∀ m ∈ n.nodes, m.id.revision ≠ revision) :
    DifferAt path t text n n' := by
  obtain ⟨changed, before, after⟩ := h.descendant?_path
  have written : t.withText revision text = { t with id := t.id.revised revision, text } := by
    rw [Scalar.withText, if_neg changed]
  have isNode := Node.mem_nodes_of_descendant before
  refine ⟨before, ⟨t.id.revised revision, ?_, ?_⟩, ?_, ?_⟩
  · rw [after, written]
  · exact NodeId.revised_ne (older _ isNode)
  · intro q within proper
    exact h.descendant?_above older within proper
  · intro q apart
    exact h.descendant?_others apart

end RewrittenAt

end ConfigTree.Yaml
