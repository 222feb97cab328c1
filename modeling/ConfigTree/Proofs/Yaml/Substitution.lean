import ConfigTree.Proofs.Yaml.GoingOver

/-!
# Substitution of a child

Putting a node in the place of a child, below one parent, goes no further than to the children of
this parent: a walk over the parent that goes on below no other node comes to the same. At most one
child is exchanged, and what is rebuilt around it is known by its identity, by what it says by
itself and by its children.
-/

namespace ConfigTree.Yaml

/-- A node is known by its identity, by what it says by itself and by its children. -/
theorem Node.eq_of_bare {n n' : Node} (id : n'.id = n.id) (bare : n'.bare = n.bare)
    (children : n'.children = n.children) : n' = n := by
  cases n <;> cases n' <;> simp only [Node.bare, reduceCtorEq] at bare
  case document.document d d' =>
    cases d; cases d'
    simp_all [Node.children, Node.id, Value.toNode_inj]
  case mapping.mapping m m' =>
    cases m; cases m'
    have entries := congrArg (List.filterMap asEntry) children
    simp only [Node.children, filterMap_asEntry] at entries
    simp_all [Node.id]
  case entry.entry e e' =>
    cases e; cases e'
    simp_all [Node.children, Node.id, Value.toNode_inj]
  case sequence.sequence s s' =>
    cases s; cases s'
    have items := congrArg (List.filterMap asItem) children
    simp only [Node.children, filterMap_asItem] at items
    simp_all [Node.id]
  case item.item i i' =>
    cases i; cases i'
    simp_all [Node.children, Node.id, Value.toNode_inj]
  case scalar.scalar s s' =>
    cases s; cases s'
    simp_all [Node.id]

/-- There is only one node that is rebuilt with a given child. -/
theorem Node.RebuiltWith.unique {revision k : Nat} {n after m m' : Node}
    (h : n.RebuiltWith revision k after m) (h' : n.RebuiltWith revision k after m') : m' = m :=
  Node.eq_of_bare (h'.id.trans h.id.symm) (h'.bare.trans h.bare.symm)
    (h'.children.trans h.children.symm)

/-- Below the parent the walk stops at the children. -/
theorem Node.walk_substituting {m : Type → Type} [Monad m] [LawfulMonad m] {revision : Nat}
    {parent before after : Node} (apart : ∀ child ∈ parent.children, child.id ≠ parent.id) :
    parent.walk (.substituting parent before after : Walker m) revision =
      pure (parent.substitute revision before after) := by
  have answers : ∀ place ∈ parent.slots, place.1.settle place.2 <$>
      place.2.walk (.substituting parent before after : Walker m) revision =
        pure (exchanged before after place) := by
    intro place isSlot
    have below : place.2.same parent = false :=
      beq_false_of_ne (apart place.2 (Node.mem_children_of_slots isSlot))
    simp only [Node.walk, Walker.substituting, below, exchanged, Bool.false_eq_true, if_false]
    split
    · rw [map_pure]
    · rw [map_pure, Slot.settle_self]
  have itself : parent.same parent = true := beq_self_eq_true _
  rw [Node.walk, Walker.substituting, if_pos itself, Node.walkInside_eq, mapM_congr answers,
    List.mapM_pure, map_pure, Node.substitute_eq]

/-- Putting `after` in the place of `before` below a node of a stream that was read. If `before` is
a child of the node, and `after` is another node that fits there, this makes the one new node that
has `after` as this child and all else as it was. Otherwise the node stays the node it is, and so it
does for every other node of the stream in the place of `before`, the node itself and the nodes
further down among them. As a walk it goes on below the node and no other. -/
theorem substitute_of_parse {source : Text} {s : Stream} (parsed : parse source = .ok s)
    {parent : Node} (isNode : parent ∈ s.nodes) (before after : Node) {revision : Nat}
    (later : 0 < revision) :
    ((∀ place ∈ parent.slots, ¬ Exchanges before after place) →
      parent.substitute revision before after = parent) ∧
    (∀ (k : Nat) (place : Slot × Node), parent.slots[k]? = some place →
      Exchanges before after place →
        (∀ n, parent.RebuiltWith revision k after n ↔
          n = parent.substitute revision before after) ∧
        ∀ n : Node, n ∈ s.nodes ∨ n.id.revision < revision →
          (parent.substitute revision before after).same n = false) ∧
    (before ∈ s.nodes → before ∉ parent.children →
      parent.substitute revision before after = parent) ∧
    ∀ (m : Type → Type) [Monad m] [LawfulMonad m],
      parent.walk (.substituting parent before after : Walker m) revision =
        pure (parent.substitute revision before after) := by
  have places := (places_of_parse parsed).sublist ((Stream.nodes_sublist isNode).map _)
  obtain ⟨nodup, apart⟩ := Node.nodup_children places
  refine ⟨Node.substitute_of_not_exchanges, fun k place isSlot exchanges => ?_, ?_,
    fun m _ _ => Node.walk_substituting apart⟩
  · have rebuilt : parent.RebuiltWith revision k after (parent.substitute revision before after) :=
      Node.substitute_of_exchanges nodup isSlot exchanges
    refine ⟨fun n => ⟨rebuilt.unique, fun same => same ▸ rebuilt⟩, fun n known => ?_⟩
    have earlier : n.id.revision < revision := by
      rcases known with isNode' | earlier
      · rwa [revision_of_parse parsed isNode']
      · exact earlier
    apply beq_false_of_ne
    intro same
    rw [← same, rebuilt.id, NodeId.revision_revised] at earlier
    exact Nat.lt_irrefl _ earlier
  · intro isNode' noChild
    refine Node.substitute_of_ne fun child isChild same => noChild ?_
    have inside := Stream.mem_nodes isNode (Node.mem_nodes_of_child isChild)
    rwa [← eq_of_id parsed inside isNode' same]

def twoAlikeText : Text := "a: same\nb: same\n".toList

/-- The value of the second entry in the place of that of the first, which reads the same: below the
first entry, and below the mapping, where the value is no child. -/
theorem substitute_of_parse_twoAlike :
    ∃ s mapping first one two, parse twoAlikeText = .ok s ∧ s.nodeAt? [0, 0] = some mapping ∧
      s.nodeAt? [0, 0, 0] = some first ∧ s.nodeAt? [0, 0, 0, 1] = some one ∧
      s.nodeAt? [0, 0, 1, 1] = some two ∧ 0 < 1 ∧
      first.RebuiltWith 1 1 two (first.substitute 1 one two) ∧
      (first.substitute 1 one two).same first = false ∧
      mapping.substitute 1 one two = mapping ∧
      (mapping.walk (.substituting mapping one two) 1 : Id Node) = mapping := by
  obtain ⟨s, parsed, nodes⟩ : ∃ s, parse twoAlikeText = .ok s ∧
      ((s.nodeAt? [0, 0]).bind fun mapping => (s.nodeAt? [0, 0, 0]).bind fun first =>
        (s.nodeAt? [0, 0, 0, 1]).bind fun one => (s.nodeAt? [0, 0, 1, 1]).map fun two =>
          ((first.slots[1]?).any (Exchanges one two ·), mapping.slots.any (Exchanges one two ·))) =
        some (true, false) := exists_parse (by decide +kernel)
  simp only [Option.bind_eq_some_iff, Option.map_eq_some_iff, Prod.mk.injEq, Option.any_eq_true,
    decide_eq_true_eq, List.any_eq_false] at nodes
  obtain ⟨mapping, isMapping, first, isFirst, one, isOne, two, isTwo, exchanged, noneExchanged⟩ :=
    nodes
  obtain ⟨place, isSlot, exchanges⟩ := exchanged
  have isNode := Stream.mem_nodes_of_nodeAt isFirst
  have inFirst := substitute_of_parse parsed isNode one two Nat.one_pos
  have inMapping :=
    substitute_of_parse parsed (Stream.mem_nodes_of_nodeAt isMapping) one two Nat.one_pos
  obtain ⟨rebuilt, renewed⟩ := inFirst.2.1 1 place isSlot exchanges
  have kept := inMapping.1 noneExchanged
  refine ⟨s, mapping, first, one, two, parsed, isMapping, isFirst, isOne, isTwo, Nat.one_pos,
    (rebuilt _).mpr rfl, renewed first (.inl (Stream.mem_nodes_of_nodeAt isFirst)), kept, ?_⟩
  rw [inMapping.2.2.2 Id, kept]
  rfl

end ConfigTree.Yaml
