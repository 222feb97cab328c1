import ConfigTree.Proofs.Growing
import ConfigTree.Proofs.Yaml.ScalarChanges

/-!
# Marking a tree that has marks

Marking by key is a way of changing scalars, on any tree whose nodes are told apart by their
identities: one that was read, or one that has been searched and edited before. A mark makes the
text of a tree longer, so that a tree is the tree it was or prints another text. Marking again finds
every mark in place.
-/

namespace ConfigTree.Yaml

theorem Node.print_toNode (v : Value) : v.toNode.print = v.print := by
  cases v <;> rfl

theorem CollectionStyle.length_print_around (style : CollectionStyle) (opening closing : Char)
    (inner : List (Piece Scalar)) :
    (Piece.print (style.around opening closing inner)).length =
      (Piece.print (style.around opening closing [])).length + (Piece.print inner).length := by
  cases style with
  | block => simp [CollectionStyle.around]
  | flow before last =>
    simp [CollectionStyle.around]
    omega

theorem length_print_entriesPieces (es : List Entry) :
    (Piece.print (entriesPieces es)).length = (es.map fun e => e.print.length).sum := by
  induction es with
  | nil => rfl
  | cons e es ih => simp [entriesPieces, ih, Entry.print]

theorem length_print_itemsPieces (is : List Item) :
    (Piece.print (itemsPieces is)).length = (is.map fun i => i.print.length).sum := by
  induction is with
  | nil => rfl
  | cons i is ih => simp [itemsPieces, ih, Item.print]

/-- What a node prints is what it says by itself and what is printed of its children. -/
theorem Node.length_print {n : Node} (notScalar : n.asScalar = none) :
    n.print.length = n.bare.print.length + (n.slots.map fun place => place.2.print.length).sum := by
  have empty : Value.empty.pieces = [.chars [], .chars []] := rfl
  cases n with
  | document d =>
    simp only [slots, List.map_cons, List.map_nil, print_toNode]
    simp [print, bare, Document.pieces, empty, Value.print]
    omega
  | mapping m =>
    obtain ⟨id, style, es⟩ := m
    simp [slots, print, bare, Value.print, Value.pieces, Mapping.pieces, entriesPieces,
      style.length_print_around _ _ (entriesPieces es), length_print_entriesPieces,
      Function.comp_def]
  | entry e =>
    obtain ⟨id, lead, key, gap, value, comma⟩ := e
    have key_eq : (Node.scalar key).print = Piece.print key.pieces := by
      rw [print, Value.print, Value.pieces]
    simp only [slots, List.map_cons, List.map_nil, print_toNode, key_eq]
    simp [print, bare, Entry.print, Entry.pieces, empty, Value.print, Scalar.pieces, Scalar.fresh,
      Scalar.written]
    omega
  | sequence s =>
    obtain ⟨id, style, is⟩ := s
    simp [slots, print, bare, Value.print, Value.pieces, Sequence.pieces, itemsPieces,
      style.length_print_around _ _ (itemsPieces is), length_print_itemsPieces, Function.comp_def]
  | item i =>
    obtain ⟨id, lead, dash, value, comma⟩ := i
    simp only [slots, List.map_cons, List.map_nil, print_toNode]
    simp [print, bare, Item.print, Item.pieces, empty, Value.print]
    omega
  | scalar s => contradiction

/-- If every change to a scalar makes its text longer, so does every change to a tree. -/
theorem ChangesScalars.staysOrGrows {revision : Nat} {g : Role → List Text → Scalar → Scalar}
    {change : Role → List Text → Node → Node} (h : ChangesScalars revision g change)
    (longer : ∀ role path s, g role path s = s ∨
      (Node.scalar s).print.length < (Node.scalar (g role path s)).print.length)
    {n : Node} (shows : n.Shows revision g) (role : Role) (path : List Text) :
    StaysOrGrows Node.id Node.print n (change role path n) := by
  induction n using Node.induction generalizing role path with
  | step n ih =>
    refine or_iff_not_imp_left.mpr fun changed => ⟨fun same => ?_, ?_⟩
    · exact changed (h.eq_of_id shows role path same)
    cases isScalar : n.asScalar with
    | some s =>
      obtain rfl := Node.asScalar_eq_some.mp isScalar
      rw [h.scalar] at changed ⊢
      exact (longer role path s).resolve_left fun same => changed (congrArg Node.scalar same)
    | none =>
      have each : ∀ place ∈ n.slots, StaysOrGrows (·.2.id) (·.2.print) place
          (place.1, change place.1.role (path ++ n.ownKeys) place.2) := by
        intro place isSlot
        exact (ih place.2 (Node.mem_children_of_slots isSlot) (shows.of_slot isSlot) place.1.role
          (path ++ n.ownKeys)).imp_left (congrArg (Prod.mk place.1))
      rw [Node.length_print isScalar, Node.length_print (h.asScalar_eq_none role path isScalar),
        h.bare_eq role path isScalar, h.slots_eq shows role path isScalar]
      rcases map_staysOrGrows each with same | ⟨-, grew⟩
      · refine absurd ((h.eq_iff shows role path isScalar).1.mpr fun place isSlot => ?_) changed
        rw [← List.map_id n.slots, List.map_map, List.map_inj_left] at same
        exact congrArg Prod.snd (same place isSlot)
      · exact Nat.add_lt_add_left grew _

section Marking

variable {p : Text → Bool} {revision : Nat}

/-- What comes of a node of a tree in which values are marked by their keys. -/
def Node.markedIn (p : Text → Bool) (revision : Nat) (role : Role) (path : List Text) :
    Node → Node
  | .document d => .document (d.withBody revision (d.body.markedIn p revision .body path))
  | .mapping m => .mapping (m.visitInside (markingValues p revision) revision path)
  | .entry e =>
    .entry (e.withParts revision e.key
      (e.value.markedIn p revision .value (path ++ [e.key.text])))
  | .sequence s => .sequence (s.visitInside (markingValues p revision) revision path)
  | .item i => .item (i.withValue revision (i.value.markedIn p revision .item path))
  | .scalar s => .scalar (if isFound p role path then s.withMark revision {} else s)

theorem Node.markedIn_toNode (role : Role) (path : List Text) (v : Value) :
    v.toNode.markedIn p revision role path = (v.markedIn p revision role path).toNode := by
  cases v <;> rfl

theorem Node.markedIn_key (path : List Text) (key : Scalar) :
    (Node.scalar key).markedIn p revision .key path = .scalar key := by
  simp [markedIn, isFound]

/-- Marking by key changes scalars, each by its role and the keys around it. -/
theorem Node.changesScalars_markedIn (p : Text → Bool) (revision : Nat) :
    ChangesScalars revision
      (fun role path s => if isFound p role path then s.withMark revision {} else s)
      (Node.markedIn p revision) where
  scalar _ _ _ := rfl
  inside role path n notScalar := by
    cases n with
    | document d =>
      simp only [slots, List.map_cons, List.map_nil, Slot.role, ownKeys, List.append_nil,
        markedIn_toNode, withChildren, asValue_toNode, Option.getD_some]
      rfl
    | mapping m =>
      obtain ⟨id, style, es⟩ := m
      simp [markedIn, slots, ownKeys, withChildren, Mapping.visitInside,
        visitEntries_markingValues, List.filterMap_map, Function.comp_def, asEntry]
    | entry e =>
      simp only [slots, List.map_cons, List.map_nil, Slot.role, ownKeys, markedIn_key,
        markedIn_toNode, withChildren, asScalar, asValue_toNode, Option.getD_some]
      rfl
    | sequence s =>
      obtain ⟨id, style, is⟩ := s
      simp [markedIn, slots, ownKeys, withChildren, Sequence.visitInside,
        visitItems_markingValues, List.filterMap_map, Function.comp_def, asItem]
    | item i =>
      simp only [slots, List.map_cons, List.map_nil, Slot.role, ownKeys, List.append_nil,
        markedIn_toNode, withChildren, asValue_toNode, Option.getD_some]
      rfl
    | scalar s => contradiction

/-- A scalar has at most one mark. -/
theorem Scalar.withMark_withMark {revision' : Nat} (s : Scalar) (mark mark' : Mark) :
    (s.withMark revision mark).withMark revision' mark' = s.withMark revision mark := by
  cases marked : s.mark <;> simp [Scalar.withMark, marked]

/-- A mark makes the text of a scalar longer. -/
theorem Scalar.length_print_withMark (s : Scalar) (mark : Mark) :
    s.withMark revision mark = s ∨
      (Node.scalar s).print.length < (Node.scalar (s.withMark revision mark)).print.length := by
  cases marked : s.mark with
  | some first => exact .inl (by rw [Scalar.withMark, marked])
  | none =>
    have arrow := mark.length_arrow_pos
    right
    simp [Scalar.withMark, marked, Node.print, Value.print, Value.pieces, Scalar.pieces,
      Scalar.written]
    omega

theorem Document.visit_markingValues (d : Document) :
    Node.document (d.visit (markingValues p revision) revision) =
      (Node.document d).markedIn p revision .body [] := by
  rw [document_visit_markingValues, Node.markedIn]

end Marking

/-- A stream with no node of a later revision than its own, so that the nodes of the next revision
are new. -/
def Stream.Coherent (s : Stream) : Prop := ∀ n ∈ s.nodes, n.id.revision ≤ s.id.revision

theorem Stream.coherent_of_parse {source : Text} {s : Stream} (parsed : parse source = .ok s) :
    s.Coherent := by
  intro n inside
  rw [revision_of_parse parsed inside]
  exact Nat.zero_le _

namespace Stream

variable {p : Text → Bool} {s : Stream}

theorem Coherent.shows (coherent : s.Coherent) (p : Text → Bool) {n : Node}
    (isNode : n ∈ s.nodes) : n.Shows s.nextRevision
      fun role path t => if isFound p role path then t.withMark s.nextRevision {} else t where
  older m inside := Nat.ne_of_lt (Nat.lt_succ_of_le (coherent m (Stream.mem_nodes isNode inside)))
  scalar role path t inside same := by
    have older : t.id.revision ≠ s.nextRevision :=
      Nat.ne_of_lt (Nat.lt_succ_of_le (coherent _ (Stream.mem_nodes isNode inside)))
    split at same
    · next found =>
      rw [if_pos found]
      unfold Scalar.withMark at same ⊢
      split at same
      · rfl
      · exact absurd same (NodeId.revised_ne older)
    · next notFound => rw [if_neg notFound]

theorem Coherent.eq_of_id (coherent : s.Coherent) (p : Text → Bool) {d : Document}
    (isDocument : d ∈ s.documents)
    (same : (d.visit (markingValues p s.nextRevision) s.nextRevision).id = d.id) :
    d.visit (markingValues p s.nextRevision) s.nextRevision = d := by
  have kept := (Node.changesScalars_markedIn p s.nextRevision).eq_of_id
    (coherent.shows p (Stream.mem_nodes_of_document isDocument)) .body []
  rw [← Document.visit_markingValues] at kept
  exact Node.document.inj (kept same)

theorem Coherent.documents_markByKey (coherent : s.Coherent) (p : Text → Bool) :
    (s.markByKey p).documents =
      s.documents.map (Document.visit (markingValues p s.nextRevision) s.nextRevision) :=
  Stream.documents_withDocuments_map fun _ isDocument => coherent.eq_of_id p isDocument

theorem length_print (s : Stream) :
    s.print.length =
      (s.documents.map fun d => (Node.document d).print.length).sum + s.trailer.length := by
  simp [Stream.print, Stream.pieces, Piece.print, List.flatMap_assoc, List.length_flatMap,
    Node.print]

theorem Coherent.kept_or_rebuilt (coherent : s.Coherent) (p : Text → Bool) :
    s.markByKey p = s ∨
      ((¬ ∀ d ∈ s.documents, d.visit (markingValues p s.nextRevision) s.nextRevision = d) ∧
        (s.markByKey p).id = s.id.revised s.nextRevision) := by
  refine (Stream.withDocuments_map s.nextRevision
    fun d isDocument => coherent.eq_of_id p isDocument).imp And.right fun rebuilt => ?_
  refine ⟨rebuilt.1, ?_⟩
  rw [markByKey, visit, rebuilt.2]

/-- A stream that is searched is the stream it was, or is another one with a longer text. -/
theorem Coherent.staysOrGrows (coherent : s.Coherent) (p : Text → Bool) :
    StaysOrGrows Stream.id Stream.print s (s.markByKey p) := by
  have each : ∀ d ∈ s.documents, StaysOrGrows Document.id (fun d => (Node.document d).print)
      d (d.visit (markingValues p s.nextRevision) s.nextRevision) := by
    intro d isDocument
    rw [StaysOrGrows, ← Node.document.injEq, Document.visit_markingValues]
    have node := (Node.changesScalars_markedIn p s.nextRevision).staysOrGrows
      (fun role path t => ?_) (coherent.shows p (Stream.mem_nodes_of_document isDocument)) .body []
    · rw [← Document.visit_markingValues] at node ⊢
      exact node
    · split
      · exact t.length_print_withMark {}
      · exact .inl rfl
  refine (coherent.kept_or_rebuilt p).imp_right fun ⟨changed, id⟩ => ⟨?_, ?_⟩
  · rw [id]
    exact NodeId.revised_ne (Nat.ne_of_lt (Nat.lt_succ_self _))
  · rw [length_print, length_print, coherent.documents_markByKey, markByKey, visit,
      trailer_withDocuments]
    rcases map_staysOrGrows each with same | ⟨-, longer⟩
    · rw [← List.map_id s.documents, List.map_map, List.map_inj_left] at same
      exact absurd same changed
    · exact Nat.add_lt_add_right longer _

/-- Marking again finds every mark in place. -/
theorem Coherent.markByKey_markByKey (coherent : s.Coherent) (p : Text → Bool) :
    (s.markByKey p).markByKey p = s.markByKey p := by
  have again (revision : Nat) :
      ∀ d ∈ (s.markByKey p).documents, d.visit (markingValues p revision) revision = d := by
    rw [coherent.documents_markByKey, List.forall_mem_map]
    intro d isDocument
    rw [← Node.document.injEq, Document.visit_markingValues, Document.visit_markingValues]
    refine (Node.changesScalars_markedIn p s.nextRevision).idempotent
      (Node.changesScalars_markedIn p revision)
      (coherent.shows p (Stream.mem_nodes_of_document isDocument)) (fun path t => ?_)
      (fun role path t _ => ?_) .body []
    · simp [isFound]
    · cases isFound p role path with
      | false => rfl
      | true => exact t.withMark_withMark {} {}
  rcases Stream.withDocuments_map (s.markByKey p).nextRevision
    (fun d isDocument _ => again _ d isDocument) with ⟨-, kept⟩ | ⟨changed, -⟩
  · exact kept
  · exact absurd (again _) changed

theorem Coherent.markByKey (coherent : s.Coherent) (p : Text → Bool) :
    (s.markByKey p).Coherent := by
  rcases coherent.kept_or_rebuilt p with kept | ⟨-, id⟩
  · rw [kept]
    exact coherent
  · intro n inside
    rw [id, NodeId.revision_revised]
    rw [nodes, coherent.documents_markByKey, List.flatMap_map] at inside
    obtain ⟨d, isDocument, inside⟩ := List.mem_flatMap.mp inside
    have isNode := Stream.mem_nodes_of_document isDocument
    have old := (Node.changesScalars_markedIn p s.nextRevision).mem_nodes
      (coherent.shows p isNode) (fun role path t => ?_) .body [] (m := n)
    · rw [← Document.visit_markingValues] at old
      rcases old inside with old | new
      · exact Nat.le_succ_of_le (coherent n (Stream.mem_nodes isNode old))
      · exact Nat.le_of_eq new
    · split
      · rw [Scalar.withMark]
        split
        · exact .inl rfl
        · exact .inr rfl
      · exact .inl rfl

end Stream

end ConfigTree.Yaml
