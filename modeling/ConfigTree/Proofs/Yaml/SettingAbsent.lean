import ConfigTree.Proofs.Yaml.FilledDocuments
import ConfigTree.Proofs.Yaml.Reparsing
import ConfigTree.Proofs.Yaml.DottedPath

/-!
# Setting a key that has no value

An entry may have nothing behind its colon. Setting it puts a text there, and nothing between the
colon and the text. The path reads the text in the tree, since reading does not look at what is
printed. What is printed is read back as the tree only if the colon still ends the key, which is so
behind a quoted key of a flow mapping and nowhere else.
-/

namespace ConfigTree.Yaml

section Separated

variable {style : CollectionStyle} {key new : Scalar}

/-- Behind the colon of a block mapping stands a blank. -/
theorem ReadsEntryValue.ne_filled {column : Nat} {cur last : Cursor} (fills : new.Fills)
    (closed : blankOrEnd cur.rest = true) : ¬ ReadsEntryValue column cur (.scalar new) last := by
  intro h
  obtain ⟨c, cs, begins, solid, -⟩ := fills.text.exists_cons
  rw [h.takes.rest_eq, fills.print, begins, List.cons_append, blankOrEnd, solid] at closed
  contradiction

/-- A plain key of a flow mapping goes on over a colon with a text behind it. -/
theorem ReadsFlowEntryValue.quoted_of_filled {here afterColon last : Cursor} {gap : Text}
    (fills : new.Fills) (keyRead : readFlowKey here = .ok ((key.unnumbered, gap), afterColon))
    (h : ReadsFlowEntryValue afterColon (.scalar new) last) : key.style ≠ .plain := by
  intro keyPlain
  obtain ⟨c, cs, begins, solid, notIndicator⟩ := fills.text.exists_cons
  obtain ⟨mid, after, scalarRead, cut, rfl⟩ := readFlowKey_eq_ok.mp keyRead
  obtain ⟨atColon, inline⟩ := eq_append_of_span cut
  obtain ⟨nonempty, -, scanned⟩ := scanPlain_of_readScalar scalarRead keyPlain
  have stops := (scanPlain_eq scanned nonempty).2.1
  have behind : after = c :: (cs ++ last.rest) := by
    have behind := h.takes.rest_eq
    rwa [fills.print, begins] at behind
  have goesOn : colonEnds true after = false := by
    rw [behind, colonEnds, solid, notIndicator]
    rfl
  have colon : isFlowIndicator ':' = false := rfl
  rw [atColon, plainStops_inlineBlanks inline rfl, plainRun_cons_eq_nil] at stops
  simp [goesOn, colon] at stops

mutual

/-- What is read with a value filled in has it in a flow mapping, behind a quoted key. -/
theorem ReadsFlowValue.separated {cur last : Cursor} {u u' : Value} (fills : new.Fills)
    (edit : Value.Filled style key new u u') :
    ReadsFlowValue cur u' last → style ≠ .block ∧ key.style ≠ .plain
  | .scalar _ _ _ | .sequence _ _ _ => by cases edit
  | .mapping _ _ inner => by
    cases edit with
    | mapping entries => exact inner.separated fills entries (by simp)

theorem ReadsFlowEntries.separated {own : CollectionStyle} {cur last : Cursor}
    {es es' : List Entry} {closing : Text} (fills : new.Fills)
    (edit : EntriesFilled style key new own es es') (inFlow : own ≠ .block) :
    ReadsFlowEntries cur es' closing last → style ≠ .block ∧ key.style ≠ .plain
  | .close _ _ => by cases edit
  | .entry _ _ keyRead valueRead _ others => by
    cases edit with
    | absent => exact ⟨inFlow, valueRead.quoted_of_filled fills keyRead⟩
    | inside edit => exact valueRead.separated fills edit
    | later othersEdit => exact others.separated fills othersEdit inFlow

theorem ReadsFlowEntryValue.separated {cur last : Cursor} {u u' : Value} (fills : new.Fills)
    (edit : Value.Filled style key new u u') :
    ReadsFlowEntryValue cur u' last → style ≠ .block ∧ key.style ≠ .plain
  | .absent _ _ => by cases edit
  | .value _ _ valueRead => valueRead.separated fills edit

end

mutual

theorem ReadsValue.separated {floor : Nat} {cur last : Cursor} {u u' : Value} (fills : new.Fills)
    (edit : Value.Filled style key new u u') :
    ReadsValue floor cur u' last → style ≠ .block ∧ key.style ≠ .plain
  | .sequence _ _ => by cases edit
  | .mapping _ _ entriesRead => by
    cases edit with
    | mapping entries => exact entriesRead.separated fills entries
  | .plain _ _ (.flow _ valueRead) => valueRead.separated fills edit
  | .plain _ _ (.block _ _ _) | .plain _ _ (.scalar _ _) => by cases edit

theorem ReadsEntries.separated {own : CollectionStyle} {column : Nat} {cur last : Cursor}
    {es es' : List Entry} (fills : new.Fills)
    (edit : EntriesFilled style key new own es es') :
    ReadsEntries column cur es' last → style ≠ .block ∧ key.style ≠ .plain
  | .last _ keyRead valueRead _ => by
    cases edit with
    | absent =>
      have closed := blankOrEnd_of_readKey keyRead
      exact absurd valueRead (ReadsEntryValue.ne_filled fills closed)
    | inside edit => exact valueRead.separated fills edit
    | later othersEdit => cases othersEdit
  | .more _ keyRead valueRead _ others => by
    cases edit with
    | absent =>
      have closed := blankOrEnd_of_readKey keyRead
      exact absurd valueRead (ReadsEntryValue.ne_filled fills closed)
    | inside edit => exact valueRead.separated fills edit
    | later othersEdit => exact others.separated fills othersEdit

theorem ReadsEntryValue.separated {column : Nat} {cur last : Cursor} {u u' : Value}
    (fills : new.Fills) (edit : Value.Filled style key new u u') :
    ReadsEntryValue column cur u' last → style ≠ .block ∧ key.style ≠ .plain
  | .absent _ _ | .sequence _ _ _ _ _ => by cases edit
  | .inline _ _ _ _ (.flow _ valueRead) => valueRead.separated fills edit
  | .inline _ _ _ _ (.block _ _ _) | .inline _ _ _ _ (.scalar _ _) => by cases edit
  | .nested _ _ _ valueRead => valueRead.separated fills edit

end

/-- A filled value is only read if it stands in a flow mapping, behind a quoted key. -/
theorem ReadsDocuments.separated {ds ds' : List Document} {trailer : Text} (fills : new.Fills)
    (edit : DocumentsFilled style key new ds ds') {cur : Cursor}
    (h : ReadsDocuments cur ds' trailer) : style ≠ .block ∧ key.style ≠ .plain := by
  induction edit generalizing cur with
  | here edit =>
    obtain ⟨mid, documentRead, -⟩ := h.first
    cases documentRead with
    | document start lead explicitStart bodyRead ending =>
      obtain ⟨s, isScalar, -⟩ | ⟨floor, valueRead⟩ := bodyRead.reads
      · exact absurd isScalar (edit.ne_scalar s)
      · exact valueRead.separated fills edit
  | later edit ih =>
    obtain ⟨mid, -, -, ⟨rfl, -⟩ | ⟨-, others⟩⟩ := h.first
    · cases edit
    · exact ih others

end Separated

/-- The entry reached by one key after the other, with the mapping it stands in. -/
def Node.lookupEntry (n : Node) : List Text → Option (Mapping × Entry)
  | [] => none
  | key :: keys => n.mapping?.bind fun m => (m.find? key).bind fun e =>
      if keys = [] then some (m, e) else e.value.toNode.lookupEntry keys

theorem Node.mapping?_document (d : Document) :
    (Node.document d).mapping? = d.body.toNode.mapping? := by
  cases body : d.body with
  | mapping | scalar | sequence =>
    rw [Node.mapping?, body]
    rfl

theorem Node.lookup_document (d : Document) {keys : List Text} (more : keys ≠ []) :
    (Node.document d).lookup keys = d.body.toNode.lookup keys := by
  obtain ⟨key, keys, rfl⟩ := List.exists_cons_of_ne_nil more
  rw [Node.lookup, Node.lookup, Node.mapping?_document]

theorem Node.lookupEntry_cons {n : Node} {m : Mapping} {e : Entry} {key : Text}
    (isMapping : n.mapping? = some m) (isFound : m.find? key = some e) (keys : List Text) :
    n.lookupEntry (key :: keys) =
      if keys = [] then some (m, e) else e.value.toNode.lookupEntry keys := by
  rw [lookupEntry, isMapping, Option.bind_some, isFound, Option.bind_some]

theorem Node.lookupEntry_document (d : Document) (keys : List Text) :
    (Node.document d).lookupEntry keys = d.body.toNode.lookupEntry keys := by
  cases keys with
  | nil => rfl
  | cons key keys => rw [Node.lookupEntry, Node.lookupEntry, Node.mapping?_document]

theorem find?_unnumbered (es : List Entry) (key : Text) :
    (unnumberedEntries es).find? (·.key.text = key) =
      (es.find? (·.key.text = key)).map Entry.unnumbered := by
  induction es with
  | nil => rfl
  | cons e es ih =>
    obtain ⟨id, lead, above, gap, value, comma⟩ := e
    have same : (Entry.unnumbered ⟨id, lead, above, gap, value, comma⟩).key.text = above.text := by
      rw [Entry.unnumbered]
      rfl
    rw [unnumberedEntries, List.find?_cons, List.find?_cons, same, ih]
    cases decide (above.text = key) <;> rfl

/-- Reading by keys does not look at identities. -/
theorem Value.text?_unnumbered (keys : List Text) (u : Value) :
    (u.unnumbered.toNode.lookup keys).bind Node.text? =
      (u.toNode.lookup keys).bind Node.text? := by
  induction keys generalizing u with
  | nil => cases u <;> rfl
  | cons key keys ih =>
    cases u with
    | scalar | sequence => rfl
    | mapping m =>
      have same : m.unnumbered.find? key = (m.find? key).map Entry.unnumbered := by
        obtain ⟨id, style, es⟩ := m
        rw [Mapping.unnumbered]
        exact find?_unnumbered es key
      have lookup (u : Mapping) : (Value.mapping u).toNode.lookup (key :: keys) =
        (u.find? key).bind fun e => e.value.toNode.lookup keys := rfl
      rw [Value.unnumbered, lookup, lookup, same]
      cases m.find? key with
      | none => rfl
      | some e =>
        obtain ⟨id, lead, above, gap, value, comma⟩ := e
        rw [Option.map_some, Option.bind_some, Option.bind_some, Entry.unnumbered]
        exact ih value

theorem Document.textAt?_of_unnumbered {d d' : Document} (same : d'.unnumbered = d.unnumbered)
    (path : Text) : d'.textAt? path = d.textAt? path := by
  have more := Text.splitOn_ne_nil '.' path
  have body : d'.body.unnumbered = d.body.unnumbered := congrArg Document.body same
  rw [Document.textAt?_eq, Document.textAt?_eq, Node.lookup_document d more,
    Node.lookup_document d' more, ← Value.text?_unnumbered, body, Value.text?_unnumbered]

/-! ## What setting changes -/

section Shape

variable {style own : CollectionStyle} {key new : Scalar}

theorem entriesFilled_of_set {es : List Entry} {k : Nat} {e e' : Entry} (found : es[k]? = some e)
    (first : ∀ es, EntriesFilled style key new own (e :: es) (e' :: es)) :
    EntriesFilled style key new own es (es.set k e') := by
  induction es generalizing k with
  | nil => contradiction
  | cons x es ih =>
    cases k with
    | zero =>
      obtain rfl : x = e := Option.some.inj found
      exact first es
    | succ k => exact .later (ih found)

theorem Value.Filled.of_set {m : Mapping} {k : Nat} {e : Entry} {id id' : NodeId} {value : Value}
    (found : m.entries[k]? = some e)
    (first : ∀ es, EntriesFilled style key new m.style (e :: es)
      ({ e with id := id', value } :: es)) :
    Value.Filled style key new (.mapping m)
      (.mapping { m with id, entries := m.entries.set k { e with id := id', value } }) := by
  obtain ⟨before, own, es⟩ := m
  exact .mapping (entriesFilled_of_set found first)

theorem documentsFilled_of_set {ds : List Document} {i : Nat} {d : Document} {body : Value}
    (id : NodeId) (found : ds[i]? = some d) (edit : Value.Filled style key new d.body body) :
    DocumentsFilled style key new ds (ds.set i { d with id, body }) := by
  induction ds generalizing i with
  | nil => contradiction
  | cons x ds ih =>
    cases i with
    | zero =>
      obtain rfl : x = d := Option.some.inj found
      exact .here edit
    | succ i => exact .later (ih found)

/-- Only absent values are plain and empty. -/
theorem Value.SlotShaped.empty {inFlow : Bool} {t : Scalar}
    (h : Value.SlotShaped inFlow (.scalar t)) (plain : t.style = .plain) (empty : t.text = []) :
    t.unnumbered = .fresh [] .plain [] := by
  cases h with
  | absent unnumbered => exact unnumbered
  | value shape =>
    cases shape with
    | scalar shape => exact absurd empty (shape.plain plain).nonempty

theorem Value.WellShaped.slots {inFlow : Bool} {m : Mapping}
    (h : Value.WellShaped inFlow (.mapping m)) :
    ∃ inside, ∀ e ∈ m.entries, e.value.SlotShaped inside := by
  cases h with
  | blockMapping nonempty keys values commas => exact ⟨_, values⟩
  | flowMapping keys values commas => exact ⟨_, values⟩

theorem Value.SlotShaped.slots {inFlow : Bool} {m : Mapping}
    (h : Value.SlotShaped inFlow (.mapping m)) :
    ∃ inside, ∀ e ∈ m.entries, e.value.SlotShaped inside := by
  cases h with
  | value shape => exact shape.slots

theorem unnumbered_withText {revision : Nat} {t : Scalar} {v : Text}
    (empty : t.unnumbered = .fresh [] .plain []) (changed : v ≠ t.text) :
    (t.withText revision v).unnumbered = .fresh [] .plain v := by
  obtain ⟨id, lead, scalarStyle, written, mark⟩ := t
  rw [Scalar.withText, if_neg changed]
  simp_all [Scalar.unnumbered, Scalar.fresh]

/-- What setting an absent value changes in a value, along the keys that lead to it. -/
theorem RewrittenAt.filled {revision : Nat} {t : Scalar} {v : Text} {keys : List Text}
    (plain : t.style = .plain) (empty : t.text = []) (more : keys ≠ []) {u : Value}
    {address : List Nat} {n' : Node} {inFlow : Bool}
    (h : RewrittenAt revision t v address u.toNode n')
    (nodup : (u.toNode.nodes.map (·.id.place)).Nodup) (shape : u.SlotShaped inFlow)
    (found : u.toNode.lookup keys = some (.scalar t)) :
    ∃ m e u', u.toNode.lookupEntry keys = some (m, e) ∧ e.value = .scalar t ∧ n' = u'.toNode ∧
      Value.Filled m.style e.key (t.withText revision v) u u' ∧
      t.unnumbered = .fresh [] .plain [] := by
  induction keys generalizing u address n' inFlow with
  | nil => contradiction
  | cons key keys ih =>
    obtain ⟨m, e, isMapping, isFound, below⟩ := Node.lookup_cons_eq_some found
    obtain rfl : u = .mapping m := by
      cases u with
      | mapping => exact congrArg Value.mapping (Option.some.inj isMapping)
      | scalar | sequence => contradiction
    have isEntry := List.mem_of_find?_eq_some isFound
    obtain ⟨inside, slots⟩ := shape.slots
    obtain ⟨id, id', k, value, path, rfl, atPlace, edit⟩ :=
      h.mapping_of_value nodup isEntry (Node.mem_nodes_of_lookup below)
    have entry := Node.lookupEntry_cons isMapping isFound keys
    have entryNode := Node.mem_nodes_of_child (n := .mapping m) (List.mem_map_of_mem isEntry)
    have valueNode :=
      Node.nodes_subset entryNode (Node.mem_nodes_of_value e.value.toNode.mem_nodes)
    obtain ⟨before, lead, above, gap, old, comma⟩ := e
    cases keys with
    | nil =>
      obtain rfl : old = .scalar t := Value.toNode_inj.mp (Option.some.inj below)
      obtain rfl : value = .scalar (t.withText revision v) := Value.toNode_inj.mp edit.eq_of_scalar
      have absent := (slots _ isEntry).empty plain empty
      exact ⟨m, _, _, entry.trans (if_pos rfl), rfl, rfl, .of_set atPlace fun es => .absent absent,
        absent⟩
    | cons next keys =>
      have valueNodup := nodup.sublist ((Node.nodes_sublist valueNode).map _)
      obtain ⟨m', e', u', isEntry', isValue, same, filled, absent⟩ :=
        ih (List.cons_ne_nil _ _) edit valueNodup (slots _ isEntry) below
      obtain rfl := Value.toNode_inj.mp same
      exact ⟨m', e', _, (entry.trans (if_neg (List.cons_ne_nil _ _))).trans isEntry', isValue, rfl,
        .of_set atPlace fun es => .inside filled, absent⟩

/-- What setting an absent value changes in a document. -/
theorem Document.setTextAt?_filled {source : Text} {s : Stream} (parsed : parse source = .ok s)
    {d : Document} (isDocument : d ∈ s.documents) {path : Text} {t : Scalar}
    (found : (Node.document d).lookup (Text.splitOn '.' path) = some (.scalar t))
    (plain : t.style = .plain) (empty : t.text = []) {v : Text} (full : v ≠ []) :
    ∃ m e new id body, (Node.document d).lookupEntry (Text.splitOn '.' path) = some (m, e) ∧
      e.value = .scalar t ∧ d.setTextAt? path v = some { d with id, body } ∧
      Value.Filled m.style e.key new d.body body ∧ new.unnumbered = .fresh [] .plain v := by
  have changed : v ≠ t.text := by rwa [empty]
  obtain ⟨d', revision, address, isSet, edit, -⟩ :=
    Document.setTextAt?_rewrites parsed isDocument found changed
  obtain ⟨id, body, path', isRewritten, bodyEdit⟩ := edit.document
  obtain rfl := Node.document.inj isRewritten
  have more := Text.splitOn_ne_nil '.' path
  rw [Node.lookup_document d more] at found
  rw [Node.lookupEntry_document]
  have isNode := Stream.mem_nodes_of_document isDocument
  have nodup := (Views.coherent_new parsed).places _ (.inl isNode)
  have isBody : d.body.toNode ∈ (Node.document d).nodes :=
    Node.mem_nodes_of_child List.mem_cons_self
  have bodyNodup := nodup.sublist ((Node.nodes_sublist isBody).map _)
  obtain ⟨m, e, u', isEntry, isValue, same, filled, absent⟩ := bodyEdit.filled plain empty more
    bodyNodup (wellShaped_of_parse parsed d isDocument) found
  obtain rfl := Value.toNode_inj.mp same
  exact ⟨m, e, _, id, _, isEntry, isValue, isSet, filled, unnumbered_withText absent changed⟩

end Shape

/-- The stream with another document in the place of one. -/
def Stream.withDocumentAt (s : Stream) (i : Nat) (d : Document) : Stream :=
  { s with documents := s.documents.set i d }

/-- A stream that is read again has the document that was set, up to identity. -/
theorem Stream.documents_withDocumentAt {s back : Stream} {i : Nat} {d d' : Document}
    (isDocument : s.documents[i]? = some d)
    (same : back.unnumbered = (s.withDocumentAt i d').unnumbered) :
    ∃ b, back.documents[i]? = some b ∧ b.unnumbered = d'.unnumbered := by
  have inside : i < s.documents.length := (List.getElem?_eq_some_iff.mp isDocument).1
  have documents : back.documents.map Document.unnumbered =
      (s.documents.set i d').map Document.unnumbered := congrArg Stream.documents same
  have atPlace := congrArg (·[i]?) documents
  simp only [List.getElem?_map, List.getElem?_set_self inside, Option.map_some] at atPlace
  exact Option.map_eq_some_iff.mp atPlace

/-- Setting a key that has no value. The path then reads the text in the tree. What the edited
stream prints as is read back as that tree exactly if the mapping is a flow mapping and the key is
quoted: nothing stands between the colon and the text, which only a quoted key of a flow mapping
allows. Then the path reads the text in what is read back as well. -/
theorem parse_setTextAt_absent {source : Text} {s : Stream} (parsed : parse source = .ok s)
    {i : Nat} {d : Document} (isDocument : s.documents[i]? = some d) {path : Text} {t : Scalar}
    (found : (Node.document d).lookup (Text.splitOn '.' path) = some (.scalar t))
    (plain : t.style = .plain) (empty : t.text = []) {v : Text} (full : v ≠ [])
    (readsBack : ReadsBackAsPlain v) (noIndicator : ∀ c ∈ v, isFlowIndicator c = false) :
    ∃ m e d', (Node.document d).lookupEntry (Text.splitOn '.' path) = some (m, e) ∧
      e.value = .scalar t ∧ d.setTextAt? path v = some d' ∧ d'.textAt? path = some v ∧
      ((∃ back, parse (s.withDocumentAt i d').print = .ok back ∧
          back.unnumbered = (s.withDocumentAt i d').unnumbered) ↔
        m.style ≠ .block ∧ e.key.style ≠ .plain) ∧
      (m.style ≠ .block ∧ e.key.style ≠ .plain →
        ∃ back b, parse (s.withDocumentAt i d').print = .ok back ∧
          back.documents[i]? = some b ∧ b.textAt? path = some v) := by
  have isMember := List.mem_of_getElem? isDocument
  obtain ⟨m, e, new, id, body, isEntry, isValue, isSet, filled, bare⟩ :=
    Document.setTextAt?_filled parsed isMember found plain empty full
  have fills : new.Fills := .of_unnumbered ⟨readsBack.plainText full, noIndicator⟩ bare
  have edit : DocumentsFilled m.style e.key new s.documents
      (s.withDocumentAt i { d with id, body }).documents :=
    documentsFilled_of_set id isDocument filled
  have reads : ({ d with id, body } : Document).textAt? path = some v := by
    have read : d.textAt? path = some [] := by
      rw [Document.textAt?_eq, found, ← empty]
      rfl
    obtain ⟨d', isSet', -, -, texts⟩ := Document.setTextAt?_of_some parsed isMember v read
    obtain rfl := Option.some.inj (isSet.symm.trans isSet')
    rw [texts, if_pos rfl]
  have readBack (separated : m.style ≠ .block ∧ e.key.style ≠ .plain) :
      ∃ back, parse (s.withDocumentAt i { d with id, body }).print = .ok back ∧
        back.unnumbered = (s.withDocumentAt i { d with id, body }).unnumbered := by
    refine parse_of_readsStream ?_
    exact (readsStream_of_parse parsed).filled fills separated.1 separated.2 rfl edit
  refine ⟨m, e, _, isEntry, isValue, isSet, reads, ⟨?_, readBack⟩, fun separated => ?_⟩
  · rintro ⟨back, parsed', same⟩
    have documentsRead := readsStream_of_unnumbered parsed' same.symm
    exact ReadsDocuments.separated fills edit documentsRead
  · obtain ⟨back, parsed', same⟩ := readBack separated
    obtain ⟨b, isBack, sameDocument⟩ := Stream.documents_withDocumentAt isDocument same
    exact ⟨back, b, parsed', isBack, (Document.textAt?_of_unnumbered sameDocument path).trans reads⟩

/-- Two keys without a value: a quoted one in a flow mapping and one in a block mapping. -/
def emptyKeysText : Text := "a: \x7b\"b\":\x7d\nc:\n".toList

def emptyKeysFlow : Mapping := ⟨firstAt 5, .flow [' '] [],
  [⟨firstAt 6, [], ⟨firstAt 7, [], .doubleQuoted, ['b'], none⟩, [],
    .scalar ⟨firstAt 8, [], .plain, [], none⟩, none⟩]⟩

def emptyKeysBlock : Mapping := ⟨firstAt 2, .block,
  [⟨firstAt 3, [], ⟨firstAt 4, [], .plain, ['a'], none⟩, [], .mapping emptyKeysFlow, none⟩,
    ⟨firstAt 9, ['\n'], ⟨firstAt 10, [], .plain, ['c'], none⟩, [],
      .scalar ⟨firstAt 11, [], .plain, [], none⟩, none⟩]⟩

def emptyKeysDocument : Document := ⟨firstAt 1, [], false, .mapping emptyKeysBlock, ['\n'], false⟩

def emptyKeysStream : Stream := ⟨firstAt 0, [emptyKeysDocument], []⟩

/-- The first key can be set so that the print is read back, and the second cannot. -/
theorem parse_setTextAt_absent_emptyKeys :
    parse emptyKeysText = .ok emptyKeysStream ∧ ReadsBackAsPlain ['v'] ∧
      (∃ d' back b, emptyKeysDocument.setTextAt? ['a', '.', 'b'] ['v'] = some d' ∧
        parse (emptyKeysStream.withDocumentAt 0 d').print = .ok back ∧
        back.documents[0]? = some b ∧ b.textAt? ['a', '.', 'b'] = some ['v']) ∧
      ∃ d', emptyKeysDocument.setTextAt? ['c'] ['v'] = some d' ∧
        ¬ ∃ back, parse (emptyKeysStream.withDocumentAt 0 d').print = .ok back ∧
          back.unnumbered = (emptyKeysStream.withDocumentAt 0 d').unnumbered := by
  have parsed : parse emptyKeysText = .ok emptyKeysStream := by decide +kernel
  have readsBack : ReadsBackAsPlain ['v'] :=
    ⟨_, _, _, _, _, rfl, rfl, rfl, rfl, rfl, rfl, rfl, rfl, rfl⟩
  have noIndicator : ∀ c ∈ ['v'], isFlowIndicator c = false := by simp [isFlowIndicator]
  have isDocument : emptyKeysStream.documents[0]? = some emptyKeysDocument := rfl
  have first : (Node.document emptyKeysDocument).lookup (Text.splitOn '.' ['a', '.', 'b']) =
      some (.scalar ⟨firstAt 8, [], .plain, [], none⟩) := by decide +kernel
  have second : (Node.document emptyKeysDocument).lookup (Text.splitOn '.' ['c']) =
      some (.scalar ⟨firstAt 11, [], .plain, [], none⟩) := by decide +kernel
  refine ⟨parsed, readsBack, ?_, ?_⟩
  · obtain ⟨m, e, d', isEntry, -, isSet, -, -, reads⟩ := parse_setTextAt_absent parsed isDocument
      first rfl rfl (List.cons_ne_nil 'v' []) readsBack noIndicator
    have quoted : (Node.document emptyKeysDocument).lookupEntry (Text.splitOn '.' ['a', '.', 'b']) =
        some (emptyKeysFlow, emptyKeysFlow.entries[0]) := by decide +kernel
    obtain ⟨rfl, rfl⟩ := Prod.mk.inj (Option.some.inj (isEntry.symm.trans quoted))
    obtain ⟨back, b, parsed', isBack, read⟩ :=
      reads ⟨by simp [emptyKeysFlow], by simp [emptyKeysFlow]⟩
    exact ⟨d', back, b, isSet, parsed', isBack, read⟩
  · obtain ⟨m, e, d', isEntry, -, isSet, -, condition, -⟩ := parse_setTextAt_absent parsed
      isDocument second rfl rfl (List.cons_ne_nil 'v' []) readsBack noIndicator
    have block : (Node.document emptyKeysDocument).lookupEntry (Text.splitOn '.' ['c']) =
        some (emptyKeysBlock, emptyKeysBlock.entries[1]) := by decide +kernel
    obtain ⟨rfl, rfl⟩ := Prod.mk.inj (Option.some.inj (isEntry.symm.trans block))
    exact ⟨d', isSet, fun back => (condition.mp back).1 rfl⟩

end ConfigTree.Yaml
