import ConfigTree.Proofs.Yaml.GoingOver

/-!
# Changes to scalars

There are several ways of going over a tree that change its scalars and nothing else: each scalar is
changed for itself, given its role and the keys around it, and every other node is rebuilt around
what comes of its children. What such a way leaves alone and what it makes anew is said here once
for all of them.
-/

namespace ConfigTree.Yaml

/-- `change` goes over trees and changes their scalars by `g`. -/
structure ChangesScalars (revision : Nat) (g : Role → List Text → Scalar → Scalar)
    (change : Role → List Text → Node → Node) : Prop where
  scalar : ∀ role path s, change role path (.scalar s) = .scalar (g role path s)
  inside : ∀ role path {n : Node}, n.asScalar = none →
    change role path n = n.withChildren revision
      (n.slots.map fun place => change place.1.role (path ++ n.ownKeys) place.2)

/-- A tree on which changes by `g` show: all nodes are of other revisions than the one that rebuilds
them, and a scalar that comes out with the identity that it had is the scalar it was. -/
structure Node.Shows (revision : Nat) (g : Role → List Text → Scalar → Scalar) (n : Node) :
    Prop where
  older : ∀ m ∈ n.nodes, m.id.revision ≠ revision
  scalar : ∀ role path s, .scalar s ∈ n.nodes → (g role path s).id = s.id → g role path s = s

section

variable {revision : Nat} {g : Role → List Text → Scalar → Scalar}

theorem Node.Shows.of_mem {n m : Node} (h : n.Shows revision g) (inside : m ∈ n.nodes) :
    m.Shows revision g where
  older k isNode := h.older k (Node.nodes_subset inside isNode)
  scalar role path s isNode := h.scalar role path s (Node.nodes_subset inside isNode)

theorem Node.Shows.of_slot {n : Node} (h : n.Shows revision g) {place : Slot × Node}
    (isSlot : place ∈ n.slots) : place.2.Shows revision g :=
  h.of_mem (Node.mem_nodes_of_child (Node.mem_children_of_slots isSlot))

end

/-- The keys that a node puts around what is inside stand in its slots. -/
theorem Node.ownKeys_eq (n : Node) :
    n.ownKeys = n.slots.filterMap fun place =>
      if place.1 = .key then place.2.asScalar.map (·.text) else none := by
  cases n <;> simp [Node.ownKeys, Node.slots, List.filterMap_map, Node.asScalar]

namespace ChangesScalars

variable {revision : Nat} {g : Role → List Text → Scalar → Scalar}
  {change : Role → List Text → Node → Node} (h : ChangesScalars revision g change) {n : Node}

include h

/-- A changed node is of the kind it was. -/
theorem fits (role : Role) (path : List Text) (n : Node) (slot : Slot) :
    slot.fits (change role path n) = slot.fits n := by
  induction n using Node.induction generalizing role path slot with
  | step n ih =>
    cases isScalar : n.asScalar with
    | some s =>
      obtain rfl := Node.asScalar_eq_some.mp isScalar
      rw [h.scalar]
      cases slot <;> rfl
    | none =>
      have takes : n.Takes revision fun place =>
          change place.1.role (path ++ n.ownKeys) place.2 := by
        refine Node.takes fun place isSlot => ?_
        rw [ih place.2 (Node.mem_children_of_slots isSlot)]
        exact Node.fits_of_slots isSlot
      rw [h.inside role path isScalar]
      rcases takes with ⟨-, kept⟩ | ⟨-, rebuilt⟩
      · rw [kept]
      · exact slot.fits_of_bare rebuilt.bare

theorem asScalar_eq_none (role : Role) (path : List Text) (notScalar : n.asScalar = none) :
    (change role path n).asScalar = none := by
  have kind := h.fits role path n .key
  simpa [Slot.fits, notScalar] using kind

/-- A node that is no scalar stays the node it is, if all its children do, or is rebuilt. -/
theorem kept_or_rebuilt (role : Role) (path : List Text) (notScalar : n.asScalar = none) :
    ((∀ place ∈ n.slots,
      (change place.1.role (path ++ n.ownKeys) place.2).id = place.2.id) ∧
      change role path n = n) ∨
    ((¬ ∀ place ∈ n.slots,
      (change place.1.role (path ++ n.ownKeys) place.2).id = place.2.id) ∧
      n.Rebuilt revision (fun place => change place.1.role (path ++ n.ownKeys) place.2)
        (change role path n)) := by
  rw [h.inside role path notScalar]
  refine Node.kept_or_rebuilt fun place isSlot => ?_
  rw [h.fits]
  exact Node.fits_of_slots isSlot

/-- A node that comes out with the identity that it had is the node it was. -/
theorem eq_of_id (shows : n.Shows revision g) (role : Role) (path : List Text)
    (same : (change role path n).id = n.id) : change role path n = n := by
  cases isScalar : n.asScalar with
  | some s =>
    obtain rfl := Node.asScalar_eq_some.mp isScalar
    rw [h.scalar] at same ⊢
    rw [shows.scalar role path s (Node.mem_nodes _) same]
  | none =>
    rcases h.kept_or_rebuilt role path isScalar with ⟨-, kept⟩ | ⟨-, rebuilt⟩
    · exact kept
    · rw [rebuilt.id] at same
      exact absurd same (NodeId.revised_ne (shows.older n n.mem_nodes))

/-- A node that is no scalar says what it said. -/
theorem bare_eq (role : Role) (path : List Text) (notScalar : n.asScalar = none) :
    (change role path n).bare = n.bare := by
  rcases h.kept_or_rebuilt role path notScalar with ⟨-, kept⟩ | ⟨-, rebuilt⟩
  · rw [kept]
  · exact rebuilt.bare

/-- In the slots of a node stands what comes of its children. -/
theorem slots_eq (shows : n.Shows revision g) (role : Role) (path : List Text)
    (notScalar : n.asScalar = none) :
    (change role path n).slots = n.slots.map fun place =>
      (place.1, change place.1.role (path ++ n.ownKeys) place.2) := by
  rcases h.kept_or_rebuilt role path notScalar with ⟨same, kept⟩ | ⟨-, rebuilt⟩
  · rw [kept]
    refine (List.map_id' n.slots).symm.trans (List.map_congr_left fun place isSlot => ?_)
    rw [h.eq_of_id (shows.of_slot isSlot) _ _ (same place isSlot)]
  · exact rebuilt.slots

theorem children_eq (shows : n.Shows revision g) (role : Role) (path : List Text)
    (notScalar : n.asScalar = none) :
    (change role path n).children = n.slots.map fun place =>
      change place.1.role (path ++ n.ownKeys) place.2 := by
  rw [Node.children_eq, h.slots_eq shows role path notScalar, List.map_map]
  rfl

/-- A node that is no scalar stays the node it is if and only if all its children do. Else it is
rebuilt. -/
theorem eq_iff (shows : n.Shows revision g) (role : Role) (path : List Text)
    (notScalar : n.asScalar = none) :
    (change role path n = n ↔
      ∀ place ∈ n.slots, change place.1.role (path ++ n.ownKeys) place.2 = place.2) ∧
    (change role path n ≠ n → (change role path n).id = n.id.revised revision) := by
  rcases h.kept_or_rebuilt role path notScalar with ⟨same, kept⟩ | ⟨different, rebuilt⟩
  · refine ⟨iff_of_true kept fun place isSlot => ?_, fun changed => absurd kept changed⟩
    exact h.eq_of_id (shows.of_slot isSlot) _ _ (same place isSlot)
  · have changed : change role path n ≠ n := fun kept =>
      NodeId.revised_ne (shows.older n n.mem_nodes) (rebuilt.id.symm.trans (congrArg Node.id kept))
    refine ⟨iff_of_false changed fun kept => ?_, fun _ => rebuilt.id⟩
    refine different fun place isSlot => ?_
    rw [kept place isSlot]

theorem eq_self_of_slots (role : Role) (path : List Text) (notScalar : n.asScalar = none)
    (below : ∀ place ∈ n.slots, change place.1.role (path ++ n.ownKeys) place.2 = place.2) :
    change role path n = n := by
  rcases h.kept_or_rebuilt role path notScalar with ⟨-, kept⟩ | ⟨different, -⟩
  · exact kept
  · exact absurd (fun place isSlot => congrArg Node.id (below place isSlot)) different

/-- A tree whose scalars all stay the scalars they are stays the tree it is. -/
theorem eq_self (fixed : ∀ role path s, .scalar s ∈ n.nodes → g role path s = s) (role : Role)
    (path : List Text) : change role path n = n := by
  induction n using Node.induction generalizing role path with
  | step n ih =>
    cases isScalar : n.asScalar with
    | some s =>
      obtain rfl := Node.asScalar_eq_some.mp isScalar
      rw [h.scalar, fixed role path s (Node.mem_nodes _)]
    | none =>
      have below (place : Slot × Node) (isSlot : place ∈ n.slots) :
          change place.1.role (path ++ n.ownKeys) place.2 = place.2 := by
        have isChild := Node.mem_children_of_slots isSlot
        exact ih place.2 isChild (fun role path s inside =>
          fixed role path s (Node.nodes_subset (Node.mem_nodes_of_child isChild) inside)) _ _
      exact h.eq_self_of_slots role path isScalar below

/-- The nodes of a changed tree are nodes that were there or belong to the revision of the change. -/
theorem mem_nodes (shows : n.Shows revision g)
    (revised : ∀ role path s, g role path s = s ∨ (g role path s).id.revision = revision)
    (role : Role) (path : List Text) {m : Node} (inside : m ∈ (change role path n).nodes) :
    m ∈ n.nodes ∨ m.id.revision = revision := by
  induction n using Node.induction generalizing role path with
  | step n ih =>
    cases isScalar : n.asScalar with
    | some s =>
      obtain rfl := Node.asScalar_eq_some.mp isScalar
      rw [h.scalar] at inside
      obtain rfl := List.mem_singleton.mp inside
      rcases revised role path s with kept | new
      · rw [kept]
        exact .inl (Node.mem_nodes _)
      · exact .inr new
    | none =>
      rw [Node.nodes_eq, h.children_eq shows role path isScalar, List.flatMap_map,
        List.mem_cons] at inside
      rcases inside with rfl | below
      · by_cases kept : change role path n = n
        · rw [kept]
          exact .inl n.mem_nodes
        · right
          rw [(h.eq_iff shows role path isScalar).2 kept, NodeId.revision_revised]
      · obtain ⟨place, isSlot, below⟩ := List.mem_flatMap.mp below
        have isChild := Node.mem_children_of_slots isSlot
        exact (ih place.2 isChild (shows.of_slot isSlot) _ _ below).imp_left fun old =>
          Node.nodes_subset (Node.mem_nodes_of_child isChild) old

/-- Going over a tree a second time changes nothing, if the changes to scalars have nothing to do
any more and leave the text of keys alone. -/
theorem idempotent {revision' : Nat} {g' : Role → List Text → Scalar → Scalar}
    {change' : Role → List Text → Node → Node} (h' : ChangesScalars revision' g' change')
    (shows : n.Shows revision g) (keyText : ∀ path s, (g .key path s).text = s.text)
    (done : ∀ role path s, .scalar s ∈ n.nodes → g' role path (g role path s) = g role path s)
    (role : Role) (path : List Text) :
    change' role path (change role path n) = change role path n := by
  induction n using Node.induction generalizing role path with
  | step n ih =>
    cases isScalar : n.asScalar with
    | some s =>
      obtain rfl := Node.asScalar_eq_some.mp isScalar
      rw [h.scalar, h'.scalar, done role path s (Node.mem_nodes _)]
    | none =>
      have notScalar := h.asScalar_eq_none role path isScalar
      have slots := h.slots_eq shows role path isScalar
      have keys : (change role path n).ownKeys = n.ownKeys := by
        rw [Node.ownKeys_eq, Node.ownKeys_eq n, slots, List.filterMap_map]
        refine List.filterMap_congr fun place isSlot => ?_
        by_cases isKey : place.1 = .key
        · have fits := Node.fits_of_slots isSlot
          rw [isKey] at fits
          obtain ⟨s, key⟩ := Slot.scalar_of_fits fits
          simp only [Function.comp_apply, isKey, if_true, key, Slot.role, h.scalar, Node.asScalar,
            Option.map_some, keyText]
        · simp only [Function.comp_apply, if_neg isKey]
      have below : ∀ place ∈ (change role path n).slots,
          change' place.1.role (path ++ (change role path n).ownKeys) place.2 = place.2 := by
        rw [slots, keys, List.forall_mem_map]
        intro place isSlot
        have isChild := Node.mem_children_of_slots isSlot
        refine ih place.2 isChild (shows.of_slot isSlot) (fun role path s inside => ?_) _ _
        exact done role path s (Node.nodes_subset (Node.mem_nodes_of_child isChild) inside)
      exact h'.eq_self_of_slots role path notScalar below

end ChangesScalars

/-! ## Visitors of scalars -/

section Visitors

variable {f : Scalar → Scalar} {revision : Nat}

/-- A visitor that is about scalars changes the scalars of a tree. -/
theorem Node.changesScalars_visit (f : Scalar → Scalar) (revision : Nat) :
    ChangesScalars revision (fun _ _ => f)
      fun _ path n => n.visit (.onScalars f) revision path where
  scalar _ _ _ := rfl
  inside _ path n notScalar := by
    have visit : n.visit (.onScalars f) revision path =
        n.visitInside (.onScalars f) revision path := by
      cases n with
      | scalar s => contradiction
      | _ => rfl
    rw [visit, Node.visitInside_eq]
    congr 1
    refine List.map_congr_left fun place isSlot => Slot.settle_of_fits ?_
    have kind (m : Node) (keys : List Text) (slot : Slot) :
        slot.fits (m.visit (.onScalars f) revision keys) = slot.fits m := by
      cases m <;> cases slot <;> rfl
    rw [kind]
    exact Node.fits_of_slots isSlot

/-- A visitor that changes none of the scalars of a tree gives back the tree. -/
theorem Node.visit_of_fixed (path : List Text) {n : Node}
    (fixed : ∀ s, .scalar s ∈ n.nodes → f s = s) : n.visit (.onScalars f) revision path = n :=
  (changesScalars_visit f revision).eq_self (fun _ _ => fixed) .body path

theorem Document.visit_onScalars (revision : Nat) (d : Document) :
    Node.document (d.visit (.onScalars f) revision) =
      (Node.document d).visit (.onScalars f) revision [] := by
  rw [Node.document_visit]
  rfl

end Visitors

@[simp] theorem Stream.trailer_withDocuments (revision : Nat) (s : Stream) (ds : List Document) :
    (s.withDocuments revision ds).trailer = s.trailer := by
  rw [Stream.withDocuments]
  split <;> rfl

/-- A stream stays the stream it is, if all its documents do, or is rebuilt around what comes of
them. -/
theorem Stream.withDocuments_map (revision : Nat) {s : Stream} {visit : Document → Document}
    (exact : ∀ d ∈ s.documents, (visit d).id = d.id → visit d = d) :
    ((∀ d ∈ s.documents, visit d = d) ∧
      s.withDocuments revision (s.documents.map visit) = s) ∨
    ((¬ ∀ d ∈ s.documents, visit d = d) ∧ s.withDocuments revision (s.documents.map visit) =
      { s with id := s.id.revised revision, documents := s.documents.map visit }) := by
  have ids : (s.documents.map visit).map (·.id) = s.documents.map (·.id) ↔
      ∀ d ∈ s.documents, visit d = d := by
    rw [List.map_map, List.map_inj_left]
    exact forall₂_congr fun d isDocument =>
      ⟨exact d isDocument, fun same => congrArg Document.id same⟩
  by_cases same : ∀ d ∈ s.documents, visit d = d
  · exact .inl ⟨same, if_pos (ids.mpr same)⟩
  · exact .inr ⟨same, if_neg fun unchanged => same (ids.mp unchanged)⟩

theorem Stream.documents_withDocuments_map {revision : Nat} {s : Stream}
    {visit : Document → Document} (exact : ∀ d ∈ s.documents, (visit d).id = d.id → visit d = d) :
    (s.withDocuments revision (s.documents.map visit)).documents = s.documents.map visit := by
  rcases Stream.withDocuments_map revision exact with ⟨same, kept⟩ | ⟨-, rebuilt⟩
  · rw [kept]
    exact (List.map_id' s.documents).symm.trans
      (List.map_congr_left fun d isDocument => (same d isDocument).symm)
  · rw [rebuilt]

end ConfigTree.Yaml
