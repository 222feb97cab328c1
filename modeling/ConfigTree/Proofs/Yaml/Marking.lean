import ConfigTree.Proofs.Yaml.Identity
import ConfigTree.Proofs.Yaml.Segments
import ConfigTree.Proofs.Yaml.Trivia
import ConfigTree.PropertySearch

/-!
# Marking by key

The visitor that marks values by their keys changes the scalars that it finds and nothing else. This
is said in terms of segments: those of the visited tree are those of the tree before, each with a
mark if it is found. A node is left as it is if nothing is found below it, and is another node if
something is; that is what the nodes above it look at.
-/

namespace ConfigTree.Yaml

/-- Whether a scalar is a value with a key that satisfies `p`: the value of an entry, or an item of
a sequence somewhere below one. -/
def isFound (p : Text → Bool) (role : Role) (keys : List Text) : Bool :=
  (role = .value ∨ role = .item) && !keys.isEmpty && p (Text.joinWith '.' keys)

def Site.isFound (p : Text → Bool) (site : Site) : Bool := Yaml.isFound p site.role site.keys

namespace Segment

def isFound (p : Text → Bool) : Segment → Bool
  | chars _ => false
  | scalar role keys _ => Yaml.isFound p role keys

/-- The segment with a mark if it is found. -/
def marked (p : Text → Bool) (revision : Nat) : Segment → Segment
  | chars t => chars t
  | scalar role keys s =>
    scalar role keys (if Yaml.isFound p role keys then s.withMark revision {} else s)

end Segment

variable {p : Text → Bool} {revision : Nat}

theorem map_marked_of_notFound {segments : List Segment}
    (h : segments.any (Segment.isFound p) = false) :
    segments.map (Segment.marked p revision) = segments := by
  induction segments with
  | nil => rfl
  | cons segment segments ih =>
    obtain ⟨here, others⟩ := Bool.or_eq_false_iff.mp h
    rw [List.map_cons, ih others]
    cases segment with
    | chars t => rfl
    | scalar role keys s =>
      have here : isFound p role keys = false := here
      simp [Segment.marked, here]

/-- `after` is `before` with a mark on every scalar found in it. -/
structure Marks (p : Text → Bool) (revision : Nat) {α ι : Type} (id : α → ι)
    (segments : α → List Segment) (before after : α) : Prop where
  segments_eq : segments after = (segments before).map (Segment.marked p revision)
  same : (segments before).any (Segment.isFound p) = false → after = before
  changed : (segments before).any (Segment.isFound p) = true → id after ≠ id before

/-- What a node must be for a mark to change it: built by an earlier revision, and not marked. -/
structure Node.Fresh (revision : Nat) (n : Node) : Prop where
  older : n.id.revision ≠ revision
  unmarked : ∀ s, n = .scalar s → s.mark = none

/-- A node that is rebuilt exactly when a part of it has changed. -/
theorem Marks.lift {α β ι κ : Type} {id : α → ι} {segments : α → List Segment} {part part' : α}
    {id' : β → κ} {segments' : β → List Segment} {whole whole' : β}
    (h : Marks p revision id segments part part')
    (found : (segments' whole).any (Segment.isFound p) = (segments part).any (Segment.isFound p))
    (same : part' = part → whole' = whole)
    (changed : id part' ≠ id part → id' whole' ≠ id' whole ∧
      segments' whole' = (segments' whole).map (Segment.marked p revision)) :
    Marks p revision id' segments' whole whole' := by
  cases any : (segments part).any (Segment.isFound p) with
  | false =>
    have unchanged := same (h.same any)
    rw [any] at found
    refine ⟨?_, fun _ => unchanged, ?_⟩
    · rw [unchanged, map_marked_of_notFound found]
    · rw [found]
      exact fun different => Bool.noConfusion different
  | true =>
    obtain ⟨different, segments⟩ := changed (h.changed any)
    rw [any] at found
    refine ⟨segments, ?_, fun _ => different⟩
    rw [found]
    exact fun notFound => Bool.noConfusion notFound

/-- The value as the visitor leaves it in its place: the visitor marks scalars when it comes to what
holds them. -/
def Value.markedIn (p : Text → Bool) (revision : Nat) (role : Role) (path : List Text) :
    Value → Value
  | .scalar s => .scalar (if isFound p role path then s.withMark revision {} else s)
  | v => v.visit (markingValues p revision) revision path

theorem isFound_value (path : List Text) (key : Text) :
    isFound p .value (path ++ [key]) = p (Text.joinWith '.' (path ++ [key])) := by
  simp [isFound]

theorem isFound_item (path : List Text) :
    isFound p .item path = decide (path ≠ [] ∧ p (Text.joinWith '.' path) = true) := by
  cases path <;> simp [isFound]

/-- What the visitor makes of an entry. -/
theorem markingValues_entry (path : List Text) (e : Entry) :
    (markingValues p revision path (.entry e)
      (.entry (e.visitInside (markingValues p revision) revision path))).asEntry.getD e =
      e.withParts revision e.key
        (e.value.markedIn p revision .value (path ++ [e.key.text])) := by
  obtain ⟨id, lead, key, gap, value, comma⟩ := e
  cases value with
  | scalar s =>
    rw [Value.markedIn, isFound_value]
    by_cases found : p (Text.joinWith '.' (path ++ [key.text])) = true
    · simp only [markingValues, if_pos found]
      rfl
    · simp only [markingValues, if_neg found]
      rfl
  | mapping m => rfl
  | sequence s => rfl

/-- What the visitor makes of an item. -/
theorem markingValues_item (path : List Text) (i : Item) :
    (markingValues p revision path (.item i)
      (.item (i.visitInside (markingValues p revision) revision path))).asItem.getD i =
      i.withValue revision (i.value.markedIn p revision .item path) := by
  obtain ⟨id, lead, dash, value, comma⟩ := i
  cases value with
  | scalar s =>
    rw [Value.markedIn, isFound_item]
    by_cases found : path ≠ [] ∧ p (Text.joinWith '.' path) = true
    · simp only [markingValues, decide_eq_true_eq, if_pos found]
      rfl
    · simp only [markingValues, decide_eq_true_eq, if_neg found]
      rfl
  | mapping m => rfl
  | sequence s => rfl

theorem document_visit_markingValues (d : Document) :
    d.visit (markingValues p revision) revision =
      d.withBody revision (d.body.markedIn p revision .body []) := by
  obtain ⟨id, lead, explicitStart, body, tail, explicitEnd⟩ := d
  cases body <;> rfl

theorem visitEntries_markingValues (path : List Text) (es : List Entry) :
    visitEntries (markingValues p revision) revision path es = es.map fun e =>
      e.withParts revision e.key
        (e.value.markedIn p revision .value (path ++ [e.key.text])) := by
  induction es with
  | nil => rfl
  | cons e es ih => rw [visitEntries, markingValues_entry, ih, List.map_cons]

theorem visitItems_markingValues (path : List Text) (is : List Item) :
    visitItems (markingValues p revision) revision path is = is.map fun i =>
      i.withValue revision (i.value.markedIn p revision .item path) := by
  induction is with
  | nil => rfl
  | cons i is ih => rw [visitItems, markingValues_item, ih, List.map_cons]

/-- Nodes beside each other do not depend on each other. -/
theorem Marks.map {α ι : Type} {id : α → ι} {segments : α → List Segment} {mark : α → α}
    {nodes : List α} (h : ∀ n ∈ nodes, Marks p revision id segments n (mark n)) :
    Marks p revision (List.map id) (List.flatMap segments) nodes (nodes.map mark) := by
  induction nodes with
  | nil => exact ⟨rfl, fun _ => rfl, fun found => Bool.noConfusion found⟩
  | cons n nodes ih =>
    have here := h n List.mem_cons_self
    have others := ih fun m inside => h m (List.mem_cons_of_mem n inside)
    refine ⟨?_, ?_, ?_⟩
    · rw [List.map_cons, List.flatMap_cons, List.flatMap_cons, here.segments_eq,
        others.segments_eq, List.map_append]
    · intro notFound
      rw [List.flatMap_cons, List.any_append] at notFound
      obtain ⟨notHere, notThere⟩ := Bool.or_eq_false_iff.mp notFound
      rw [List.map_cons, here.same notHere, others.same notThere]
    · intro found unchanged
      rw [List.map_cons, List.map_cons, List.map_cons, List.cons.injEq] at unchanged
      rw [List.flatMap_cons, List.any_append] at found
      rcases Bool.or_eq_true_iff.mp found with found | found
      · exact here.changed found unchanged.1
      · exact others.changed found unchanged.2

theorem entriesSegments_eq (path : List Text) (es : List Entry) :
    entriesSegments path es = es.flatMap (Entry.segments path) := by
  induction es with
  | nil => rfl
  | cons e es ih => rw [entriesSegments, ih, List.flatMap_cons]

theorem itemsSegments_eq (path : List Text) (is : List Item) :
    itemsSegments path is = is.flatMap (Item.segments path) := by
  induction is with
  | nil => rfl
  | cons i is ih => rw [itemsSegments, ih, List.flatMap_cons]

/-! ## Trees -/

theorem commaSegments_marked (comma : Option Text) :
    (commaSegments comma).map (Segment.marked p revision) = commaSegments comma := by
  cases comma <;> rfl

theorem commaSegments_notFound (comma : Option Text) :
    (commaSegments comma).any (Segment.isFound p) = false := by
  cases comma <;> rfl

theorem CollectionStyle.segments_marked (style : CollectionStyle) (opening closing : Char)
    (inner : List Segment) :
    style.segments opening closing (inner.map (Segment.marked p revision)) =
      (style.segments opening closing inner).map (Segment.marked p revision) := by
  cases style with
  | block => rfl
  | flow before last =>
    simp only [CollectionStyle.segments, List.map_cons, List.map_append, List.map_nil,
      Segment.marked]

theorem CollectionStyle.any_isFound (style : CollectionStyle) (opening closing : Char)
    (inner : List Segment) :
    (style.segments opening closing inner).any (Segment.isFound p) =
      inner.any (Segment.isFound p) := by
  cases style with
  | block => rfl
  | flow before last => simp [CollectionStyle.segments, Segment.isFound]

/-- A mark changes a scalar that has none. -/
theorem Scalar.marks {s : Scalar} (fresh : Node.Fresh revision (.scalar s)) (role : Role)
    (path : List Text) :
    Marks p revision Scalar.id (fun s => [.scalar role path s]) s
      (if isFound p role path then s.withMark revision {} else s) where
  segments_eq := rfl
  same notFound := by
    have notFound : isFound p role path = false := by simpa [Segment.isFound] using notFound
    rw [if_neg (by simp [notFound])]
  changed found := by
    have found : isFound p role path = true := by simpa [Segment.isFound] using found
    rw [if_pos found, Scalar.withMark, fresh.unmarked s rfl]
    exact NodeId.revised_ne fresh.older

mutual

/-- The visitor marks what is found in a value and nothing else. -/
theorem Value.marks {v : Value} (fresh : ∀ n ∈ v.nodes, n.Fresh revision) (role : Role)
    (path : List Text) :
    Marks p revision Value.id (Value.segments role path) v (v.markedIn p revision role path) := by
  cases v with
  | scalar s =>
    have marks := Scalar.marks (p := p) (fresh (.scalar s) List.mem_cons_self) role path
    exact marks.lift rfl (congrArg Value.scalar) fun different => ⟨different, rfl⟩
  | mapping m =>
    have marks := Mapping.marks fresh path
    exact marks.lift rfl (congrArg Value.mapping) fun different => ⟨different, marks.segments_eq⟩
  | sequence s =>
    have marks := Sequence.marks fresh path
    exact marks.lift rfl (congrArg Value.sequence) fun different => ⟨different, marks.segments_eq⟩

theorem Mapping.marks {m : Mapping} (fresh : ∀ n ∈ m.nodes, n.Fresh revision)
    (path : List Text) :
    Marks p revision Mapping.id (Mapping.segments path) m
      (m.visitInside (markingValues p revision) revision path) := by
  obtain ⟨id, style, entries⟩ := m
  have older : id.revision ≠ revision := (fresh _ List.mem_cons_self).older
  have marks := Marks.map (entries_marks
    (fun n inside => fresh n (List.mem_cons_of_mem _ inside)) path)
  rw [← visitEntries_markingValues] at marks
  apply marks.lift
  · rw [Mapping.segments, CollectionStyle.any_isFound, entriesSegments_eq]
  · intro unchanged
    rw [Mapping.visitInside, Mapping.withEntries, unchanged, if_pos rfl]
  · intro different
    rw [Mapping.visitInside, Mapping.withEntries, if_neg different]
    refine ⟨NodeId.revised_ne older, ?_⟩
    rw [Mapping.segments, Mapping.segments, entriesSegments_eq, entriesSegments_eq,
      marks.segments_eq, CollectionStyle.segments_marked]

theorem entries_marks {es : List Entry} (fresh : ∀ n ∈ entriesNodes es, n.Fresh revision)
    (path : List Text) :
    ∀ e ∈ es, Marks p revision Entry.id (Entry.segments path) e
      (e.withParts revision e.key
        (e.value.markedIn p revision .value (path ++ [e.key.text]))) := by
  cases es with
  | nil => simp
  | cons e es =>
    have here := Entry.marks (fun n inside => fresh n (List.mem_append_left _ inside)) path
    have others := entries_marks
      (fun n inside => fresh n (List.mem_append_right _ inside)) path
    exact List.forall_mem_cons.mpr ⟨here, others⟩

theorem Entry.marks {e : Entry} (fresh : ∀ n ∈ e.nodes, n.Fresh revision) (path : List Text) :
    Marks p revision Entry.id (Entry.segments path) e
      (e.withParts revision e.key
        (e.value.markedIn p revision .value (path ++ [e.key.text]))) := by
  obtain ⟨id, lead, key, gap, value, comma⟩ := e
  have older : id.revision ≠ revision := (fresh _ List.mem_cons_self).older
  have marks := Value.marks
    (fun n inside => fresh n (List.mem_cons_of_mem _ (List.mem_cons_of_mem _ inside))) .value
    (path ++ [key.text])
  apply marks.lift
  · simp [Entry.segments, Segment.isFound, isFound, commaSegments_notFound]
  · intro unchanged
    rw [Entry.withParts, unchanged, if_pos ⟨rfl, rfl⟩]
  · intro different
    rw [Entry.withParts, if_neg fun same => different same.2]
    refine ⟨NodeId.revised_ne older, ?_⟩
    simp [Entry.segments, Segment.marked, isFound, marks.segments_eq, commaSegments_marked]

theorem Sequence.marks {s : Sequence} (fresh : ∀ n ∈ s.nodes, n.Fresh revision)
    (path : List Text) :
    Marks p revision Sequence.id (Sequence.segments path) s
      (s.visitInside (markingValues p revision) revision path) := by
  obtain ⟨id, style, items⟩ := s
  have older : id.revision ≠ revision := (fresh _ List.mem_cons_self).older
  have marks := Marks.map (items_marks
    (fun n inside => fresh n (List.mem_cons_of_mem _ inside)) path)
  rw [← visitItems_markingValues] at marks
  apply marks.lift
  · rw [Sequence.segments, CollectionStyle.any_isFound, itemsSegments_eq]
  · intro unchanged
    rw [Sequence.visitInside, Sequence.withItems, unchanged, if_pos rfl]
  · intro different
    rw [Sequence.visitInside, Sequence.withItems, if_neg different]
    refine ⟨NodeId.revised_ne older, ?_⟩
    rw [Sequence.segments, Sequence.segments, itemsSegments_eq, itemsSegments_eq,
      marks.segments_eq, CollectionStyle.segments_marked]

theorem items_marks {is : List Item} (fresh : ∀ n ∈ itemsNodes is, n.Fresh revision)
    (path : List Text) :
    ∀ i ∈ is, Marks p revision Item.id (Item.segments path) i
      (i.withValue revision (i.value.markedIn p revision .item path)) := by
  cases is with
  | nil => simp
  | cons i is =>
    have here := Item.marks (fun n inside => fresh n (List.mem_append_left _ inside)) path
    have others := items_marks
      (fun n inside => fresh n (List.mem_append_right _ inside)) path
    exact List.forall_mem_cons.mpr ⟨here, others⟩

theorem Item.marks {i : Item} (fresh : ∀ n ∈ i.nodes, n.Fresh revision) (path : List Text) :
    Marks p revision Item.id (Item.segments path) i
      (i.withValue revision (i.value.markedIn p revision .item path)) := by
  obtain ⟨id, lead, dash, value, comma⟩ := i
  have older : id.revision ≠ revision := (fresh _ List.mem_cons_self).older
  have marks := Value.marks
    (fun n inside => fresh n (List.mem_cons_of_mem _ inside)) .item path
  apply marks.lift
  · simp [Item.segments, Segment.isFound, commaSegments_notFound]
  · intro unchanged
    rw [Item.withValue, unchanged, if_pos rfl]
  · intro different
    rw [Item.withValue, if_neg different]
    refine ⟨NodeId.revised_ne older, ?_⟩
    simp [Item.segments, Segment.marked, marks.segments_eq, commaSegments_marked]

end

theorem Document.marks {d : Document} (fresh : ∀ n ∈ d.nodes, n.Fresh revision) :
    Marks p revision Document.id Document.segments d
      (d.visit (markingValues p revision) revision) := by
  have older : d.id.revision ≠ revision := (fresh _ List.mem_cons_self).older
  have marks := Value.marks (p := p)
    (fun n inside => fresh n (List.mem_cons_of_mem _ inside)) .body []
  rw [document_visit_markingValues]
  apply marks.lift
  · simp [Document.segments, Segment.isFound]
  · intro unchanged
    rw [Document.withBody, unchanged, if_pos rfl]
  · intro different
    rw [Document.withBody, if_neg different]
    refine ⟨NodeId.revised_ne older, ?_⟩
    simp [Document.segments, Segment.marked, marks.segments_eq]

/-- The visitor marks what is found in a stream and nothing else. -/
theorem Stream.marks {s : Stream} (fresh : ∀ n ∈ s.nodes, n.Fresh s.nextRevision) :
    Marks p s.nextRevision Stream.id Stream.segments s (s.markByKey p) := by
  have older : s.id.revision ≠ s.nextRevision := Nat.ne_of_lt (Nat.lt_succ_self _)
  have each : ∀ d ∈ s.documents, Marks p s.nextRevision Document.id Document.segments d
      (d.visit (markingValues p s.nextRevision) s.nextRevision) := by
    intro d isDocument
    exact Document.marks fun n inside => fresh n (List.mem_flatMap_of_mem isDocument inside)
  have marks := Marks.map each
  apply marks.lift
  · simp [Stream.segments, Segment.isFound]
  · intro unchanged
    rw [Stream.markByKey, Stream.visit, Stream.withDocuments, unchanged, if_pos rfl]
  · intro different
    rw [Stream.markByKey, Stream.visit, Stream.withDocuments, if_neg different]
    refine ⟨NodeId.revised_ne older, ?_⟩
    simp [Stream.segments, Segment.marked, marks.segments_eq]

/-- The nodes of a stream that was read have no marks. -/
theorem fresh_of_parse {text : Text} {s : Stream} (parsed : parse text = .ok s) :
    ∀ n ∈ s.nodes, n.Fresh s.nextRevision :=
  fun n inside => ⟨older_of_parse parsed inside, (clean_of_parse parsed n inside).unmarked⟩

end ConfigTree.Yaml
