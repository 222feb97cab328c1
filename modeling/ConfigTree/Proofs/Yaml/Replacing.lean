import ConfigTree.Proofs.Yaml.EditPlaces
import ConfigTree.Proofs.Yaml.ScalarChanges

/-!
# Replacing a scalar

A scalar is replaced in a stream by a visitor that knows it by its identity. In a stream that was
read every identity is there once, so that exactly one place changes. Behind that place stands what
stood there before.
-/

namespace ConfigTree.Yaml

section Fixed

variable {f : Scalar → Scalar} {revision : Nat}

theorem Entry.visit_of_fixed (path : List Text) {e : Entry}
    (fixed : ∀ s, .scalar s ∈ e.nodes → f s = s) :
    e.visitInside (.onScalars f) revision path = e :=
  Node.entry.inj (Node.visit_of_fixed (n := .entry e) path fixed)

theorem visitEntries_of_fixed (path : List Text) {es : List Entry}
    (fixed : ∀ s, .scalar s ∈ entriesNodes es → f s = s) :
    visitEntries (.onScalars f) revision path es = es := by
  induction es with
  | nil => rfl
  | cons e es ih =>
    have first : e.visitInside (.onScalars f) revision path = e :=
      Entry.visit_of_fixed path fun s inside => fixed s (List.mem_append_left _ inside)
    rw [visitEntries, first, ih fun s inside => fixed s (List.mem_append_right _ inside)]
    rfl

theorem Item.visit_of_fixed (path : List Text) {i : Item}
    (fixed : ∀ s, .scalar s ∈ i.nodes → f s = s) :
    i.visitInside (.onScalars f) revision path = i :=
  Node.item.inj (Node.visit_of_fixed (n := .item i) path fixed)

theorem visitItems_of_fixed (path : List Text) {is : List Item}
    (fixed : ∀ s, .scalar s ∈ itemsNodes is → f s = s) :
    visitItems (.onScalars f) revision path is = is := by
  induction is with
  | nil => rfl
  | cons i is ih =>
    have first : i.visitInside (.onScalars f) revision path = i :=
      Item.visit_of_fixed path fun s inside => fixed s (List.mem_append_left _ inside)
    rw [visitItems, first, ih fun s inside => fixed s (List.mem_append_right _ inside)]
    rfl

theorem Document.visit_of_fixed {d : Document} (fixed : ∀ s, .scalar s ∈ d.nodes → f s = s) :
    d.visit (.onScalars f) revision = d := by
  have kept : (Node.document d).visit (.onScalars f) revision [] = .document d :=
    Node.visit_of_fixed [] fixed
  rw [← Document.visit_onScalars] at kept
  exact Node.document.inj kept

end Fixed

/-- What closes a collection of this style. -/
def CollectionStyle.closing (style : CollectionStyle) (bracket : Char) : Text :=
  match style with
  | .block => []
  | .flow _ last => last ++ [bracket]

mutual

/-- The texts behind the scalars with the identity `id`, up to the end of the value. -/
def Value.textsAfter (id : NodeId) : Value → List Text
  | .scalar s => if s.id = id then [[]] else []
  | .mapping m => m.textsAfter id
  | .sequence s => s.textsAfter id

def Mapping.textsAfter (id : NodeId) : Mapping → List Text
  | ⟨_, style, entries⟩ => (entriesTextsAfter id entries).map (· ++ style.closing '\x7d')

def entriesTextsAfter (id : NodeId) : List Entry → List Text
  | [] => []
  | e :: es => (e.textsAfter id).map (· ++ entriesPrint es) ++ entriesTextsAfter id es

def Entry.textsAfter (id : NodeId) : Entry → List Text
  | ⟨_, _, key, gap, value, comma⟩ =>
    (if key.id = id then [gap ++ [':'] ++ value.print ++ commaText comma] else []) ++
      (value.textsAfter id).map (· ++ commaText comma)

def Sequence.textsAfter (id : NodeId) : Sequence → List Text
  | ⟨_, style, items⟩ => (itemsTextsAfter id items).map (· ++ style.closing ']')

def itemsTextsAfter (id : NodeId) : List Item → List Text
  | [] => []
  | i :: is => (i.textsAfter id).map (· ++ itemsPrint is) ++ itemsTextsAfter id is

def Item.textsAfter (id : NodeId) : Item → List Text
  | ⟨_, _, _, value, comma⟩ => (value.textsAfter id).map (· ++ commaText comma)

end

def documentsTextsAfter (id : NodeId) : List Document → List Text
  | [] => []
  | d :: ds =>
    (d.body.textsAfter id).map (· ++ d.endText ++ documentsPrint ds) ++ documentsTextsAfter id ds

/-- The texts behind the scalars with the identity `id`. -/
def Stream.textsAfter (id : NodeId) (s : Stream) : List Text :=
  (documentsTextsAfter id s.documents).map (· ++ s.trailer)

section Absent

variable {id : NodeId}

mutual

/-- Nothing stands behind a scalar that is not there. -/
theorem Value.textsAfter_of_absent {v : Value} (absent : ∀ n ∈ v.nodes, n.id ≠ id) :
    v.textsAfter id = [] := by
  cases v with
  | scalar s => exact if_neg (absent _ List.mem_cons_self)
  | mapping m =>
    obtain ⟨_, style, entries⟩ := m
    have none := entriesTextsAfter_of_absent fun n inside =>
      absent n (List.mem_cons_of_mem _ inside)
    rw [Value.textsAfter, Mapping.textsAfter, none, List.map_nil]
  | sequence s =>
    obtain ⟨_, style, items⟩ := s
    have none := itemsTextsAfter_of_absent fun n inside => absent n (List.mem_cons_of_mem _ inside)
    rw [Value.textsAfter, Sequence.textsAfter, none, List.map_nil]

theorem entriesTextsAfter_of_absent {es : List Entry} (absent : ∀ n ∈ entriesNodes es, n.id ≠ id) :
    entriesTextsAfter id es = [] := by
  cases es with
  | nil => rfl
  | cons e es =>
    have first := Entry.textsAfter_of_absent fun n inside =>
      absent n (List.mem_append_left _ inside)
    have others := entriesTextsAfter_of_absent fun n inside =>
      absent n (List.mem_append_right _ inside)
    rw [entriesTextsAfter, first, others]
    rfl

theorem Entry.textsAfter_of_absent {e : Entry} (absent : ∀ n ∈ e.nodes, n.id ≠ id) :
    e.textsAfter id = [] := by
  obtain ⟨_, lead, key, gap, value, comma⟩ := e
  have keyAbsent : key.id ≠ id := absent _ (List.mem_cons_of_mem _ List.mem_cons_self)
  have none := Value.textsAfter_of_absent fun n inside =>
    absent n (List.mem_cons_of_mem _ (List.mem_cons_of_mem _ inside))
  rw [Entry.textsAfter, none, if_neg keyAbsent]
  rfl

theorem itemsTextsAfter_of_absent {is : List Item} (absent : ∀ n ∈ itemsNodes is, n.id ≠ id) :
    itemsTextsAfter id is = [] := by
  cases is with
  | nil => rfl
  | cons i is =>
    have first := Item.textsAfter_of_absent fun n inside => absent n (List.mem_append_left _ inside)
    have others := itemsTextsAfter_of_absent fun n inside =>
      absent n (List.mem_append_right _ inside)
    rw [itemsTextsAfter, first, others]
    rfl

theorem Item.textsAfter_of_absent {i : Item} (absent : ∀ n ∈ i.nodes, n.id ≠ id) :
    i.textsAfter id = [] := by
  obtain ⟨_, lead, dash, value, comma⟩ := i
  have none := Value.textsAfter_of_absent fun n inside => absent n (List.mem_cons_of_mem _ inside)
  rw [Item.textsAfter, none, List.map_nil]

end

theorem documentsTextsAfter_of_absent {ds : List Document}
    (absent : ∀ n ∈ ds.flatMap Document.nodes, n.id ≠ id) : documentsTextsAfter id ds = [] := by
  induction ds with
  | nil => rfl
  | cons d ds ih =>
    rw [List.flatMap_cons] at absent
    have none : d.body.textsAfter id = [] := Value.textsAfter_of_absent fun n inside =>
      absent n (List.mem_append_left _ (List.mem_cons_of_mem _ inside))
    rw [documentsTextsAfter, none, ih fun n inside => absent n (List.mem_append_right _ inside)]
    rfl

end Absent

/-! ## What stands in block collections -/

/-- Whether the scalar is the value of an entry or an item of the node, and the node a block
collection. -/
def Node.HoldsInBlock (t : Scalar) : Node → Prop
  | .mapping m => m.style = .block ∧ ∃ e ∈ m.entries, e.value = .scalar t
  | .sequence s => s.style = .block ∧ ∃ i ∈ s.items, i.value = .scalar t
  | _ => False

/-- Whether the value is the scalar, or holds it as the value of an entry or an item in
block style. -/
def Value.HasSlot (t : Scalar) (v : Value) : Prop :=
  v = .scalar t ∨ ∃ n ∈ v.nodes, n.HoldsInBlock t

mutual

/-- Inside flow collections there are no block collections. -/
theorem ReadsFlowValue.notHeld {cur last : Cursor} {v : Value} (t : Scalar) :
    ReadsFlowValue cur v last → ∀ n ∈ v.nodes, ¬ n.HoldsInBlock t
  | .sequence _ _ inner => by
    intro n inside
    rcases List.mem_cons.mp inside with rfl | inside
    · rintro ⟨style, -⟩
      contradiction
    · exact inner.notHeld t n inside
  | .mapping _ _ inner => by
    intro n inside
    rcases List.mem_cons.mp inside with rfl | inside
    · rintro ⟨style, -⟩
      contradiction
    · exact inner.notHeld t n inside
  | .scalar _ _ _ => by
    intro n inside
    obtain rfl := List.mem_singleton.mp inside
    exact id

theorem ReadsFlowItems.notHeld {cur last : Cursor} {is : List Item} {closing : Text} (t : Scalar) :
    ReadsFlowItems cur is closing last → ∀ n ∈ itemsNodes is, ¬ n.HoldsInBlock t
  | .close _ _ => by
    intro n inside
    contradiction
  | .item _ _ valueRead _ others => by
    intro n inside
    rcases List.mem_append.mp inside with inside | inside
    · rcases List.mem_cons.mp inside with rfl | inside
      · exact id
      · exact valueRead.notHeld t n inside
    · exact others.notHeld t n inside

theorem ReadsFlowEntries.notHeld {cur last : Cursor} {es : List Entry} {closing : Text}
    (t : Scalar) :
    ReadsFlowEntries cur es closing last → ∀ n ∈ entriesNodes es, ¬ n.HoldsInBlock t
  | .close _ _ => by
    intro n inside
    contradiction
  | .entry _ _ _ valueRead _ others => by
    intro n inside
    rcases List.mem_append.mp inside with inside | inside
    · rcases List.mem_cons.mp inside with rfl | inside
      · exact id
      · rcases List.mem_cons.mp inside with rfl | inside
        · exact id
        · exact valueRead.notHeld t n inside
    · exact others.notHeld t n inside

theorem ReadsFlowEntryValue.notHeld {cur last : Cursor} {v : Value} (t : Scalar) :
    ReadsFlowEntryValue cur v last → ∀ n ∈ v.nodes, ¬ n.HoldsInBlock t
  | .absent _ _ => by
    intro n inside
    obtain rfl := List.mem_singleton.mp inside
    exact id
  | .value _ _ valueRead => valueRead.notHeld t

end

/-- A value as it stands in a block collection, or as the body of a document. -/
def Value.Readable (v : Value) : Prop :=
  (∃ s, v = .scalar s ∧ s.unnumbered = .fresh [] .plain []) ∨
    ∃ floor cur last, ReadsValue floor cur v last

/-- The value of an entry is absent or read like any value. -/
theorem ReadsEntryValue.reads {column : Nat} {cur last : Cursor} {v : Value}
    (h : ReadsEntryValue column cur v last) :
    (∃ s, v = .scalar s ∧ s.unnumbered = .fresh [] .plain [] ∧ last = cur) ∨
      ∃ floor, ReadsValue floor cur v last := by
  cases h with
  | absent empty next => exact .inl ⟨_, rfl, empty, rfl⟩
  | inline more sameLine notItem notEntry valueRead =>
      exact .inr ⟨_, .plain notItem notEntry valueRead⟩
  | nested more newLine inside valueRead => exact .inr ⟨_, valueRead⟩
  | sequence more newLine level opens itemsRead =>
    rw [← level] at itemsRead
    exact .inr ⟨0, .sequence opens itemsRead⟩

/-- The value of an item is absent or read like any value. -/
theorem ReadsItemValue.reads {column : Nat} {cur last : Cursor} {v : Value}
    (h : ReadsItemValue column cur v last) :
    (∃ s, v = .scalar s ∧ s.unnumbered = .fresh [] .plain [] ∧ last = cur) ∨
      ∃ floor, ReadsValue floor cur v last := by
  cases h with
  | absent empty next => exact .inl ⟨_, rfl, empty, rfl⟩
  | value more inside valueRead => exact .inr ⟨_, valueRead⟩

theorem ReadsEntryValue.readable {column : Nat} {cur last : Cursor} {v : Value}
    (h : ReadsEntryValue column cur v last) : v.Readable := by
  rcases h.reads with ⟨s, rfl, empty, -⟩ | ⟨floor, read⟩
  · exact .inl ⟨s, rfl, empty⟩
  · exact .inr ⟨floor, _, _, read⟩

theorem ReadsItemValue.readable {column : Nat} {cur last : Cursor} {v : Value}
    (h : ReadsItemValue column cur v last) : v.Readable := by
  rcases h.reads with ⟨s, rfl, empty, -⟩ | ⟨floor, read⟩
  · exact .inl ⟨s, rfl, empty⟩
  · exact .inr ⟨floor, _, _, read⟩

theorem ReadsEntries.readable {column : Nat} {cur last : Cursor} {es : List Entry}
    (h : ReadsEntries column cur es last) : ∀ e ∈ es, e.comma = none ∧ e.value.Readable := by
  induction es generalizing cur with
  | nil => cases h
  | cons e es ih =>
    obtain ⟨id, lead, here, key, gap, value, afterColon, mid, others, same, -, -, valueRead,
      rest⟩ :=
      h.first
    obtain ⟨rfl, rfl⟩ := List.cons.inj same
    rw [List.forall_mem_cons]
    refine ⟨⟨rfl, valueRead.readable⟩, ?_⟩
    rcases rest with ⟨rfl, -⟩ | ⟨-, more⟩
    · exact List.forall_mem_nil _
    · exact ih more

theorem ReadsItems.readable {column : Nat} {cur last : Cursor} {is : List Item}
    (h : ReadsItems column cur is last) : ∀ i ∈ is, i.comma = none ∧ i.value.Readable := by
  induction is generalizing cur with
  | nil => cases h
  | cons i is ih =>
    obtain ⟨id, lead, here, dashRest, value, mid, others, same, -, -, -, valueRead, rest⟩ := h.first
    obtain ⟨rfl, rfl⟩ := List.cons.inj same
    rw [List.forall_mem_cons]
    refine ⟨⟨rfl, valueRead.readable⟩, ?_⟩
    rcases rest with ⟨rfl, -⟩ | ⟨-, more⟩
    · exact List.forall_mem_nil _
    · exact ih more

theorem Node.HoldsInBlock.mem {n : Node} {t : Scalar} (h : n.HoldsInBlock t) :
    .scalar t ∈ n.nodes := by
  cases n with
  | mapping m =>
    obtain ⟨-, e, inside, value⟩ := h
    have isChild : Node.entry e ∈ (Node.mapping m).children := List.mem_map_of_mem inside
    have isValue : Node.scalar t ∈ (Node.entry e).children := by
      rw [Node.children, value]
      exact List.mem_cons_of_mem _ List.mem_cons_self
    exact Node.nodes_subset (Node.mem_nodes_of_child isChild) (Node.mem_nodes_of_child isValue)
  | sequence s =>
    obtain ⟨-, i, inside, value⟩ := h
    have isChild : Node.item i ∈ (Node.sequence s).children := List.mem_map_of_mem inside
    have isValue : Node.scalar t ∈ (Node.item i).children := by
      rw [Node.children, value]
      exact List.mem_cons_self
    exact Node.nodes_subset (Node.mem_nodes_of_child isChild) (Node.mem_nodes_of_child isValue)
  | document | entry | item | scalar => contradiction

theorem Value.HasSlot.mem {v : Value} {t : Scalar} (h : v.HasSlot t) : .scalar t ∈ v.nodes := by
  rcases h with rfl | ⟨n, inside, holds⟩
  · exact List.mem_cons_self
  · rw [← Node.nodes_toNode] at inside ⊢
    exact Node.nodes_subset inside holds.mem

/-- A mapping with a block collection inside is a block mapping, and the slot is in one of
its values. -/
theorem Value.Readable.of_mapping {t : Scalar} {id : NodeId} {style : CollectionStyle}
    {es : List Entry} (h : (Value.mapping ⟨id, style, es⟩).Readable) {n : Node}
    (inside : n ∈ (Value.mapping ⟨id, style, es⟩).nodes) (holds : n.HoldsInBlock t) :
    style = .block ∧ (∀ e ∈ es, e.comma = none ∧ e.value.Readable) ∧
      ∃ e ∈ es, e.value.HasSlot t := by
  obtain ⟨s, isScalar, -⟩ | ⟨floor, cur, last, read⟩ := h
  · contradiction
  cases read with
  | mapping notItem opens entriesRead =>
    refine ⟨rfl, entriesRead.readable, ?_⟩
    rcases List.mem_cons.mp inside with rfl | inside
    · obtain ⟨-, e, isEntry, value⟩ := holds
      exact ⟨e, isEntry, .inl value⟩
    · rw [entriesNodes_eq, List.mem_flatMap] at inside
      obtain ⟨child, isChild, inside⟩ := inside
      obtain ⟨e, isEntry, rfl⟩ := List.mem_map.mp isChild
      refine ⟨e, isEntry, .inr ⟨n, ?_, holds⟩⟩
      obtain ⟨id, lead, key, gap, value, comma⟩ := e
      rcases List.mem_cons.mp inside with rfl | inside
      · contradiction
      · rcases List.mem_cons.mp inside with rfl | inside
        · contradiction
        · exact inside
  | plain notItem notEntry valueRead =>
    cases valueRead with
    | flow opening flowRead => exact absurd holds (flowRead.notHeld t n inside)

/-- A sequence with a block collection inside is a block sequence, and the slot is in one
of its items. -/
theorem Value.Readable.of_sequence {t : Scalar} {id : NodeId} {style : CollectionStyle}
    {is : List Item} (h : (Value.sequence ⟨id, style, is⟩).Readable) {n : Node}
    (inside : n ∈ (Value.sequence ⟨id, style, is⟩).nodes) (holds : n.HoldsInBlock t) :
    style = .block ∧ (∀ i ∈ is, i.comma = none ∧ i.value.Readable) ∧
      ∃ i ∈ is, i.value.HasSlot t := by
  obtain ⟨s, isScalar, -⟩ | ⟨floor, cur, last, read⟩ := h
  · contradiction
  cases read with
  | sequence opens itemsRead =>
    refine ⟨rfl, itemsRead.readable, ?_⟩
    rcases List.mem_cons.mp inside with rfl | inside
    · obtain ⟨-, i, isItem, value⟩ := holds
      exact ⟨i, isItem, .inl value⟩
    · rw [itemsNodes_eq, List.mem_flatMap] at inside
      obtain ⟨child, isChild, inside⟩ := inside
      obtain ⟨i, isItem, rfl⟩ := List.mem_map.mp isChild
      refine ⟨i, isItem, .inr ⟨n, ?_, holds⟩⟩
      obtain ⟨id, lead, dash, value, comma⟩ := i
      rcases List.mem_cons.mp inside with rfl | inside
      · contradiction
      · exact inside
  | plain notItem notEntry valueRead =>
    cases valueRead with
    | flow opening flowRead => exact absurd holds (flowRead.notHeld t n inside)

/-- What stands in a block collection is read there. -/
theorem Value.Readable.slot {t : Scalar} :
    ∀ {v : Value}, v.Readable → v.HasSlot t → (Value.scalar t).Readable
  | _, readable, .inl same => same ▸ readable
  | .scalar s, _, .inr ⟨n, inside, holds⟩ => by
    obtain rfl := List.mem_singleton.mp inside
    contradiction
  | .mapping ⟨id, style, es⟩, readable, .inr ⟨n, inside, holds⟩ => by
    obtain ⟨-, readable, e, isEntry, slot⟩ := readable.of_mapping inside holds
    exact (readable e isEntry).2.slot slot
  | .sequence ⟨id, style, is⟩, readable, .inr ⟨n, inside, holds⟩ => by
    obtain ⟨-, readable, i, isItem, slot⟩ := readable.of_sequence inside holds
    exact (readable i isItem).2.slot slot
termination_by v => sizeOf v
decreasing_by
  · have smaller := List.sizeOf_lt_of_mem isEntry
    obtain ⟨id, lead, key, gap, value, comma⟩ := e
    simp at smaller ⊢
    omega
  · have smaller := List.sizeOf_lt_of_mem isItem
    obtain ⟨id, lead, dash, value, comma⟩ := i
    simp at smaller ⊢
    omega

theorem Value.Readable.unmarked {s : Scalar} (h : (Value.scalar s).Readable) : s.mark = none := by
  obtain ⟨s', same, empty⟩ | ⟨floor, cur, last, read⟩ := h
  · obtain rfl := Value.scalar.inj same
    exact congrArg Scalar.mark empty
  · cases read with
    | plain notItem notEntry valueRead =>
      cases valueRead with
      | flow opening flowRead =>
        cases flowRead with
        | scalar notSequence notMapping read => exact (readScalar_takes read).2.2.2
      | block indicator opening read => exact (readBlockScalar_takes indicator opening read).2.2.2
      | scalar notIndicator read => exact (readScalar_takes read).2.2.2

theorem ReadsBody.reads {cur last : Cursor} {v : Value} (h : ReadsBody cur v last) :
    (∃ s, v = .scalar s ∧ s.unnumbered = .fresh [] .plain [] ∧ last = cur) ∨
      ∃ floor, ReadsValue floor cur v last := by
  cases h with
  | absent empty ends => exact .inl ⟨_, rfl, empty, rfl⟩
  | value more valueRead => exact .inr ⟨_, valueRead⟩

theorem ReadsDocument.readable {cur last : Cursor} {d : Document} (h : ReadsDocument cur d last) :
    d.body.Readable := by
  cases h with
  | document start lead explicitStart bodyRead ending =>
    rcases bodyRead.reads with ⟨s, scalar, empty, -⟩ | ⟨floor, read⟩
    · exact .inl ⟨s, scalar, empty⟩
    · exact .inr ⟨floor, _, _, read⟩

/-! ## The edited tree -/

/-- The visitor that gives the scalar with the identity `id` another text. -/
def rewriting (id : NodeId) (revision : Nat) (text : Text) : Visitor :=
  .onScalars fun s => if s.id = id then s.withText revision text else s

/-- The stream with another text for the scalar `t`. -/
def Stream.rewrite (s : Stream) (t : Scalar) (text : Text) : Stream :=
  s.visit (rewriting t.id s.nextRevision text)

section Rewriting

variable {t : Scalar} {revision : Nat} {text : Text}

theorem visitEntries_of_absent (path : List Text) {es : List Entry}
    (absent : ∀ n ∈ entriesNodes es, n.id ≠ t.id) :
    visitEntries (rewriting t.id revision text) revision path es = es :=
  visitEntries_of_fixed path fun _ inside => if_neg (absent _ inside)

theorem Entry.visit_of_absent (path : List Text) {e : Entry} (absent : ∀ n ∈ e.nodes, n.id ≠ t.id) :
    e.visitInside (rewriting t.id revision text) revision path = e :=
  Entry.visit_of_fixed path fun _ inside => if_neg (absent _ inside)

theorem visitItems_of_absent (path : List Text) {is : List Item}
    (absent : ∀ n ∈ itemsNodes is, n.id ≠ t.id) :
    visitItems (rewriting t.id revision text) revision path is = is :=
  visitItems_of_fixed path fun _ inside => if_neg (absent _ inside)

theorem Item.visit_of_absent (path : List Text) {i : Item} (absent : ∀ n ∈ i.nodes, n.id ≠ t.id) :
    i.visitInside (rewriting t.id revision text) revision path = i :=
  Item.visit_of_fixed path fun _ inside => if_neg (absent _ inside)

theorem Document.visit_of_absent {d : Document} (absent : ∀ n ∈ d.nodes, n.id ≠ t.id) :
    d.visit (rewriting t.id revision text) revision = d :=
  Document.visit_of_fixed fun _ inside => if_neg (absent _ inside)

theorem documents_of_absent {ds : List Document}
    (absent : ∀ n ∈ ds.flatMap Document.nodes, n.id ≠ t.id) :
    ds.map (Document.visit (rewriting t.id revision text) revision) = ds := by
  induction ds with
  | nil => rfl
  | cons d ds ih =>
    rw [List.flatMap_cons] at absent
    rw [List.map_cons, ih fun n inside => absent n (List.mem_append_right _ inside),
      Document.visit_of_absent fun n inside => absent n (List.mem_append_left _ inside)]

theorem Scalar.withText_id (changed : text ≠ t.text) :
    (t.withText revision text).id = t.id.revised revision := by
  rw [Scalar.withText, if_neg changed]

/-- The value is edited at one place in a block collection inside, only there does the scalar stand,
and the edited value has another identity. -/
def Value.RewrittenInside (t : Scalar) (revision : Nat) (text : Text) (path : List Text)
    (v : Value) : Prop :=
  ∃ after, Value.EditsAt t (t.withText revision text) after v
      (v.visit (rewriting t.id revision text) revision path) ∧
    v.textsAfter t.id = [after] ∧
    (v.visit (rewriting t.id revision text) revision path).id ≠ v.id

/-- The same for a value that can be the scalar itself. -/
def Value.RewrittenSlot (t : Scalar) (revision : Nat) (text : Text) (path : List Text)
    (v : Value) : Prop :=
  ∃ after, SlotEditsAt t (t.withText revision text) after v
      (v.visit (rewriting t.id revision text) revision path) ∧
    v.textsAfter t.id = [after] ∧
    (v.visit (rewriting t.id revision text) revision path).id ≠ v.id

def EntriesRewritten (t : Scalar) (revision : Nat) (text : Text) (path : List Text)
    (es : List Entry) : Prop :=
  ∃ after, EntriesEditsAt t (t.withText revision text) after es
      (visitEntries (rewriting t.id revision text) revision path es) ∧
    entriesTextsAfter t.id es = [after] ∧
    (visitEntries (rewriting t.id revision text) revision path es).map (·.id) ≠ es.map (·.id)

def ItemsRewritten (t : Scalar) (revision : Nat) (text : Text) (path : List Text)
    (is : List Item) : Prop :=
  ∃ after, ItemsEditsAt t (t.withText revision text) after is
      (visitItems (rewriting t.id revision text) revision path is) ∧
    itemsTextsAfter t.id is = [after] ∧
    (visitItems (rewriting t.id revision text) revision path is).map (·.id) ≠ is.map (·.id)

def DocumentsRewritten (t : Scalar) (revision : Nat) (text : Text) (ds : List Document) : Prop :=
  ∃ after, DocumentsEditsAt t (t.withText revision text) after ds
      (ds.map (Document.visit (rewriting t.id revision text) revision)) ∧
    documentsTextsAfter t.id ds = [after] ∧
    (ds.map (Document.visit (rewriting t.id revision text) revision)).map (·.id) ≠ ds.map (·.id)

theorem Value.rewrittenSlot (path : List Text) (changed : text ≠ t.text) {v : Value}
    (older : ∀ n ∈ v.nodes, n.id.revision ≠ revision) (slot : v.HasSlot t)
    (inside : ∀ n ∈ v.nodes, n.HoldsInBlock t → v.RewrittenInside t revision text path) :
    v.RewrittenSlot t revision text path := by
  rcases slot with rfl | ⟨n, isNode, holds⟩
  · have visited : (Value.scalar t).visit (rewriting t.id revision text) revision path =
        .scalar (t.withText revision text) := congrArg Value.scalar (if_pos rfl)
    rw [RewrittenSlot, visited]
    refine ⟨[], .replaced, if_pos rfl, ?_⟩
    show (t.withText revision text).id ≠ t.id
    rw [Scalar.withText_id changed]
    exact NodeId.revised_ne (older _ List.mem_cons_self)
  · obtain ⟨after, edit, texts, ids⟩ := inside n isNode holds
    exact ⟨after, .inside edit, texts, ids⟩

section Steps

variable {path : List Text}

theorem EntriesRewritten.mapping {id : NodeId} {es : List Entry}
    (h : EntriesRewritten t revision text path es) (older : id.revision ≠ revision) :
    (Value.mapping ⟨id, .block, es⟩).RewrittenInside t revision text path := by
  obtain ⟨after, edit, texts, ids⟩ := h
  have visited :
      (Value.mapping ⟨id, .block, es⟩).visit (rewriting t.id revision text) revision path =
        .mapping ⟨id.revised revision, .block,
          visitEntries (rewriting t.id revision text) revision path es⟩ := by
    rw [Value.visit, Mapping.visitInside, Mapping.withEntries, if_neg ids]
    rfl
  rw [Value.RewrittenInside, visited]
  refine ⟨after, .mapping edit, ?_, NodeId.revised_ne older⟩
  simp [Value.textsAfter, Mapping.textsAfter, texts, CollectionStyle.closing]

theorem ItemsRewritten.sequence {id : NodeId} {is : List Item}
    (h : ItemsRewritten t revision text path is) (older : id.revision ≠ revision) :
    (Value.sequence ⟨id, .block, is⟩).RewrittenInside t revision text path := by
  obtain ⟨after, edit, texts, ids⟩ := h
  have visited :
      (Value.sequence ⟨id, .block, is⟩).visit (rewriting t.id revision text) revision path =
        .sequence ⟨id.revised revision, .block,
          visitItems (rewriting t.id revision text) revision path is⟩ := by
    rw [Value.visit, Sequence.visitInside, Sequence.withItems, if_neg ids]
    rfl
  rw [Value.RewrittenInside, visited]
  refine ⟨after, .sequence edit, ?_, NodeId.revised_ne older⟩
  simp [Value.textsAfter, Sequence.textsAfter, texts, CollectionStyle.closing]

/-- The scalar is in the value of the first entry, and only there. -/
theorem EntriesRewritten.here {id : NodeId} {lead gap : Text} {key : Scalar} {value : Value}
    {es : List Entry} (older : id.revision ≠ revision) (keyOther : key.id ≠ t.id)
    (slot : value.RewrittenSlot t revision text (path ++ [key.text]))
    (others : ∀ n ∈ entriesNodes es, n.id ≠ t.id) :
    EntriesRewritten t revision text path (⟨id, lead, key, gap, value, none⟩ :: es) := by
  obtain ⟨after, edit, texts, ids⟩ := slot
  have keySame : key.visit (rewriting t.id revision text) (path ++ [key.text]) = key :=
    if_neg keyOther
  have visited : visitEntries (rewriting t.id revision text) revision path
      (⟨id, lead, key, gap, value, none⟩ :: es) = ⟨id.revised revision, lead, key, gap,
        value.visit (rewriting t.id revision text) revision (path ++ [key.text]), none⟩ :: es := by
    rw [visitEntries, visitEntries_of_absent path others, Entry.visitInside, keySame,
      Entry.withParts, if_neg fun same => ids same.2]
    rfl
  rw [EntriesRewritten, visited]
  refine ⟨after ++ entriesPrint es, .here edit, ?_, ?_⟩
  · rw [entriesTextsAfter, Entry.textsAfter, if_neg keyOther, texts,
      entriesTextsAfter_of_absent others]
    simp [commaText]
  · intro same
    exact NodeId.revised_ne older (List.cons.inj same).1

/-- The scalar is in one of the later entries, and only there. -/
theorem EntriesRewritten.later {e : Entry} {es : List Entry} (first : ∀ n ∈ e.nodes, n.id ≠ t.id)
    (h : EntriesRewritten t revision text path es) :
    EntriesRewritten t revision text path (e :: es) := by
  obtain ⟨after, edit, texts, ids⟩ := h
  have visited : visitEntries (rewriting t.id revision text) revision path (e :: es) =
      e :: visitEntries (rewriting t.id revision text) revision path es := by
    rw [visitEntries, Entry.visit_of_absent path first]
    rfl
  rw [EntriesRewritten, visited]
  refine ⟨after, .later edit, ?_, ?_⟩
  · rw [entriesTextsAfter, Entry.textsAfter_of_absent first, texts]
    rfl
  · intro same
    exact ids (List.cons.inj same).2

/-- The scalar is in the value of the first item, and only there. -/
theorem ItemsRewritten.here {id : NodeId} {lead : Text} {dash : Bool} {value : Value}
    {is : List Item} (older : id.revision ≠ revision)
    (slot : value.RewrittenSlot t revision text path)
    (others : ∀ n ∈ itemsNodes is, n.id ≠ t.id) :
    ItemsRewritten t revision text path (⟨id, lead, dash, value, none⟩ :: is) := by
  obtain ⟨after, edit, texts, ids⟩ := slot
  have visited : visitItems (rewriting t.id revision text) revision path
      (⟨id, lead, dash, value, none⟩ :: is) = ⟨id.revised revision, lead, dash,
        value.visit (rewriting t.id revision text) revision path, none⟩ :: is := by
    rw [visitItems, visitItems_of_absent path others, Item.visitInside, Item.withValue, if_neg ids]
    rfl
  rw [ItemsRewritten, visited]
  refine ⟨after ++ itemsPrint is, .here edit, ?_, ?_⟩
  · rw [itemsTextsAfter, Item.textsAfter, texts, itemsTextsAfter_of_absent others]
    simp [commaText]
  · intro same
    exact NodeId.revised_ne older (List.cons.inj same).1

/-- The scalar is in one of the later items, and only there. -/
theorem ItemsRewritten.later {i : Item} {is : List Item} (first : ∀ n ∈ i.nodes, n.id ≠ t.id)
    (h : ItemsRewritten t revision text path is) :
    ItemsRewritten t revision text path (i :: is) := by
  obtain ⟨after, edit, texts, ids⟩ := h
  have visited : visitItems (rewriting t.id revision text) revision path (i :: is) =
      i :: visitItems (rewriting t.id revision text) revision path is := by
    rw [visitItems, Item.visit_of_absent path first]
    rfl
  rw [ItemsRewritten, visited]
  refine ⟨after, .later edit, ?_, ?_⟩
  · rw [itemsTextsAfter, Item.textsAfter_of_absent first, texts]
    rfl
  · intro same
    exact ids (List.cons.inj same).2

/-- The scalar is in the body of the first document, and only there. -/
theorem DocumentsRewritten.here {d : Document} {ds : List Document}
    (older : d.id.revision ≠ revision) (body : d.body.RewrittenInside t revision text [])
    (others : ∀ n ∈ ds.flatMap Document.nodes, n.id ≠ t.id) :
    DocumentsRewritten t revision text (d :: ds) := by
  obtain ⟨after, edit, texts, ids⟩ := body
  have visited : d.visit (rewriting t.id revision text) revision =
      { d with
        id := d.id.revised revision
        body := d.body.visit (rewriting t.id revision text) revision [] } := by
    rw [Document.visit, Document.withBody, if_neg ids]
    rfl
  rw [DocumentsRewritten, List.map_cons, documents_of_absent others, visited]
  refine ⟨after ++ d.endText ++ documentsPrint ds, .here rfl rfl rfl rfl edit, ?_, ?_⟩
  · rw [documentsTextsAfter, texts, documentsTextsAfter_of_absent others]
    rfl
  · intro same
    exact NodeId.revised_ne older (List.cons.inj same).1

/-- The scalar is in one of the later documents, and only there. -/
theorem DocumentsRewritten.later {d : Document} {ds : List Document}
    (first : ∀ n ∈ d.nodes, n.id ≠ t.id) (h : DocumentsRewritten t revision text ds) :
    DocumentsRewritten t revision text (d :: ds) := by
  obtain ⟨after, edit, texts, ids⟩ := h
  have bodyOther : ∀ n ∈ d.body.nodes, n.id ≠ t.id := fun n inside =>
    first n (List.mem_cons_of_mem _ inside)
  rw [DocumentsRewritten, List.map_cons, Document.visit_of_absent first]
  refine ⟨after, .later edit, ?_, ?_⟩
  · rw [documentsTextsAfter, Value.textsAfter_of_absent bodyOther, texts]
    rfl
  · intro same
    exact ids (List.cons.inj same).2

end Steps

/-- Where all identities are different, what is in one of two parts has not the identity of what is
in the other. -/
theorem id_ne_of_nodup {before behind : List Node}
    (nodup : ((before ++ behind).map Node.id).Nodup) :
    ∀ m ∈ before, ∀ n ∈ behind, m.id ≠ n.id := by
  rw [List.map_append] at nodup
  intro m inside n inside'
  exact (List.nodup_append.mp nodup).2.2 _ (List.mem_map_of_mem inside) _
    (List.mem_map_of_mem inside')

theorem Value.HasSlot.mem_entry {e : Entry} (h : e.value.HasSlot t) : .scalar t ∈ e.nodes := by
  obtain ⟨id, lead, key, gap, value, comma⟩ := e
  exact List.mem_cons_of_mem _ (List.mem_cons_of_mem _ h.mem)

theorem Value.HasSlot.mem_item {i : Item} (h : i.value.HasSlot t) : .scalar t ∈ i.nodes := by
  obtain ⟨id, lead, dash, value, comma⟩ := i
  exact List.mem_cons_of_mem _ h.mem

mutual

/-- A value that holds the scalar in a block collection is edited at one place. -/
theorem Value.rewrittenInside (path : List Text) (changed : text ≠ t.text) (v : Value)
    (readable : v.Readable) (nodup : (v.nodes.map Node.id).Nodup)
    (older : ∀ n ∈ v.nodes, n.id.revision ≠ revision) {n : Node} (inside : n ∈ v.nodes)
    (holds : n.HoldsInBlock t) : v.RewrittenInside t revision text path := by
  cases v with
  | scalar s =>
    obtain rfl := List.mem_singleton.mp inside
    contradiction
  | mapping m =>
    obtain ⟨id, style, es⟩ := m
    obtain ⟨rfl, readable, slot⟩ := readable.of_mapping inside holds
    have entries := entries_rewritten path changed es readable (List.nodup_cons.mp nodup).2
      (fun n inside => older n (List.mem_cons_of_mem _ inside)) slot
    exact entries.mapping (older _ List.mem_cons_self)
  | sequence s =>
    obtain ⟨id, style, is⟩ := s
    obtain ⟨rfl, readable, slot⟩ := readable.of_sequence inside holds
    have items := items_rewritten path changed is readable (List.nodup_cons.mp nodup).2
      (fun n inside => older n (List.mem_cons_of_mem _ inside)) slot
    exact items.sequence (older _ List.mem_cons_self)

theorem entries_rewritten (path : List Text) (changed : text ≠ t.text) (es : List Entry)
    (readable : ∀ e ∈ es, e.comma = none ∧ e.value.Readable)
    (nodup : ((entriesNodes es).map Node.id).Nodup)
    (older : ∀ n ∈ entriesNodes es, n.id.revision ≠ revision)
    (slot : ∃ e ∈ es, e.value.HasSlot t) : EntriesRewritten t revision text path es := by
  cases es with
  | nil =>
    obtain ⟨e, inside, -⟩ := slot
    contradiction
  | cons e es =>
    have apart : ∀ m ∈ e.nodes, ∀ n ∈ entriesNodes es, m.id ≠ n.id := id_ne_of_nodup nodup
    rw [entriesNodes, List.map_append] at nodup
    obtain ⟨firstNodup, othersNodup, -⟩ := List.nodup_append.mp nodup
    obtain ⟨id, lead, key, gap, value, comma⟩ := e
    obtain ⟨e', inside, slot⟩ := slot
    rcases List.mem_cons.mp inside with rfl | inside
    · have others : ∀ n ∈ entriesNodes es, n.id ≠ t.id := fun n inside =>
        (apart _ slot.mem_entry n inside).symm
      obtain ⟨rfl, readable⟩ := readable _ List.mem_cons_self
      obtain ⟨-, belowNodup⟩ := List.nodup_cons.mp firstNodup
      obtain ⟨keyApart, valueNodup⟩ := List.nodup_cons.mp belowNodup
      have keyOther : key.id ≠ t.id := fun same =>
        keyApart (List.mem_map.mpr ⟨_, slot.mem, same.symm⟩)
      have olderBelow : ∀ n ∈ value.nodes, n.id.revision ≠ revision := fun n inside =>
        older n (List.mem_append_left _ (List.mem_cons_of_mem _ (List.mem_cons_of_mem _ inside)))
      have rewritten := Value.rewrittenSlot (path ++ [key.text]) changed olderBelow slot
        fun n inside holds =>
          Value.rewrittenInside _ changed value readable valueNodup olderBelow inside holds
      exact .here (older _ List.mem_cons_self) keyOther rewritten others
    · have there : .scalar t ∈ entriesNodes es := by
        rw [entriesNodes_eq]
        exact List.mem_flatMap_of_mem (List.mem_map_of_mem inside) slot.mem_entry
      have rewritten := entries_rewritten path changed es
        (fun e inside => readable e (List.mem_cons_of_mem _ inside)) othersNodup
        (fun n inside => older n (List.mem_append_right _ inside)) ⟨e', inside, slot⟩
      exact rewritten.later fun n inside => apart n inside _ there

theorem items_rewritten (path : List Text) (changed : text ≠ t.text) (is : List Item)
    (readable : ∀ i ∈ is, i.comma = none ∧ i.value.Readable)
    (nodup : ((itemsNodes is).map Node.id).Nodup)
    (older : ∀ n ∈ itemsNodes is, n.id.revision ≠ revision)
    (slot : ∃ i ∈ is, i.value.HasSlot t) : ItemsRewritten t revision text path is := by
  cases is with
  | nil =>
    obtain ⟨i, inside, -⟩ := slot
    contradiction
  | cons i is =>
    have apart : ∀ m ∈ i.nodes, ∀ n ∈ itemsNodes is, m.id ≠ n.id := id_ne_of_nodup nodup
    rw [itemsNodes, List.map_append] at nodup
    obtain ⟨firstNodup, othersNodup, -⟩ := List.nodup_append.mp nodup
    obtain ⟨id, lead, dash, value, comma⟩ := i
    obtain ⟨i', inside, slot⟩ := slot
    rcases List.mem_cons.mp inside with rfl | inside
    · have others : ∀ n ∈ itemsNodes is, n.id ≠ t.id := fun n inside =>
        (apart _ slot.mem_item n inside).symm
      obtain ⟨rfl, readable⟩ := readable _ List.mem_cons_self
      obtain ⟨-, valueNodup⟩ := List.nodup_cons.mp firstNodup
      have olderBelow : ∀ n ∈ value.nodes, n.id.revision ≠ revision := fun n inside =>
        older n (List.mem_append_left _ (List.mem_cons_of_mem _ inside))
      have rewritten := Value.rewrittenSlot path changed olderBelow slot fun n inside holds =>
        Value.rewrittenInside _ changed value readable valueNodup olderBelow inside holds
      exact .here (older _ List.mem_cons_self) rewritten others
    · have there : .scalar t ∈ itemsNodes is := by
        rw [itemsNodes_eq]
        exact List.mem_flatMap_of_mem (List.mem_map_of_mem inside) slot.mem_item
      have rewritten := items_rewritten path changed is
        (fun i inside => readable i (List.mem_cons_of_mem _ inside)) othersNodup
        (fun n inside => older n (List.mem_append_right _ inside)) ⟨i', inside, slot⟩
      exact rewritten.later fun n inside => apart n inside _ there

end

theorem ReadsDocuments.readable {cur : Cursor} {ds : List Document} {trailer : Text}
    (h : ReadsDocuments cur ds trailer) : ∀ d ∈ ds, d.body.Readable := by
  induction h with
  | last documentRead ends =>
    intro d inside
    obtain rfl := List.mem_singleton.mp inside
    exact documentRead.readable
  | more documentRead goesOn others ih =>
    intro d inside
    rcases List.mem_cons.mp inside with rfl | inside
    · exact documentRead.readable
    · exact ih d inside

/-- In a list of documents one is edited at one place. -/
theorem documents_rewritten (changed : text ≠ t.text) {ds : List Document}
    (readable : ∀ d ∈ ds, d.body.Readable) (nodup : ((ds.flatMap Document.nodes).map Node.id).Nodup)
    (older : ∀ n ∈ ds.flatMap Document.nodes, n.id.revision ≠ revision) {n : Node}
    (inside : n ∈ ds.flatMap Document.nodes) (holds : n.HoldsInBlock t) :
    DocumentsRewritten t revision text ds := by
  induction ds with
  | nil => contradiction
  | cons d ds ih =>
    rw [List.flatMap_cons] at inside older nodup
    have apart : ∀ m ∈ d.nodes, ∀ n ∈ ds.flatMap Document.nodes, m.id ≠ n.id :=
      id_ne_of_nodup nodup
    rw [List.map_append] at nodup
    obtain ⟨firstNodup, othersNodup, -⟩ := List.nodup_append.mp nodup
    rcases List.mem_append.mp inside with inside | inside
    · have below : n ∈ d.body.nodes := by
        rcases List.mem_cons.mp inside with rfl | inside
        · contradiction
        · exact inside
      have there : .scalar t ∈ d.nodes :=
        List.mem_cons_of_mem _ (Value.HasSlot.mem (.inr ⟨n, below, holds⟩))
      have body := Value.rewrittenInside [] changed d.body (readable d List.mem_cons_self)
        (List.nodup_cons.mp firstNodup).2
        (fun m inside => older m (List.mem_append_left _ (List.mem_cons_of_mem _ inside))) below
        holds
      exact .here (older _ (List.mem_append_left _ List.mem_cons_self)) body
        fun m inside => (apart _ there m inside).symm
    · have rewritten := ih (fun d inside => readable d (List.mem_cons_of_mem _ inside))
        othersNodup (fun m inside => older m (List.mem_append_right _ inside)) inside
      have there : .scalar t ∈ ds.flatMap Document.nodes := by
        obtain ⟨d', isDocument, below⟩ := List.mem_flatMap.mp inside
        exact List.mem_flatMap_of_mem isDocument
          (Node.nodes_subset (m := .document d') below holds.mem)
      exact rewritten.later fun m inside => apart m inside _ there

/-- What is read has no marks. -/
theorem unmarked_of_parse {source : Text} {s : Stream} (parsed : parse source = .ok s) {n : Node}
    (inside : n ∈ s.nodes) (holds : n.HoldsInBlock t) : t.mark = none := by
  obtain ⟨d, isDocument, inside⟩ := List.mem_flatMap.mp inside
  have readable := ReadsDocuments.readable (readsStream_of_parse parsed) d isDocument
  rcases List.mem_cons.mp inside with rfl | inside
  · contradiction
  · exact (readable.slot (.inr ⟨n, inside, holds⟩)).unmarked

/-- A scalar in a block collection of a stream is replaced at one place. -/
theorem Stream.rewritten {source : Text} {s : Stream} (parsed : parse source = .ok s)
    (changed : text ≠ t.text) {n : Node} (inside : n ∈ s.nodes) (holds : n.HoldsInBlock t) :
    ∃ after, DocumentsEditsAt t (t.withText s.nextRevision text) after s.documents
        (s.rewrite t text).documents ∧
      (s.rewrite t text).trailer = s.trailer ∧ s.textsAfter t.id = [after ++ s.trailer] := by
  have older : ∀ m ∈ s.nodes, m.id.revision ≠ s.nextRevision := fun m => older_of_parse parsed
  obtain ⟨after, edit, texts, ids⟩ := documents_rewritten changed
    (ReadsDocuments.readable (readsStream_of_parse parsed))
    (nodup_of_parse parsed) older inside holds
  have visited : s.rewrite t text = { s with
      id := s.id.revised s.nextRevision
      documents := s.documents.map
        (Document.visit (rewriting t.id s.nextRevision text) s.nextRevision) } := by
    rw [Stream.rewrite, Stream.visit, Stream.withDocuments, if_neg ids]
  rw [visited, Stream.textsAfter, texts]
  exact ⟨after, edit, rfl, rfl⟩

end Rewriting

end ConfigTree.Yaml
