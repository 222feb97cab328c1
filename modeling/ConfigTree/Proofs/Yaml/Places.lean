import ConfigTree.Proofs.Yaml.Adequacy
import ConfigTree.Yaml.Visit

/-!
# Where nodes stand

`placed` lists the nodes of a tree in printing order, each with all the text in front of it. In a
stream that was read every node stands at its place in the text, and documents and collections are
read there by their rules. So what the rules say of a node and its place holds all over the tree,
without another induction.
-/

namespace ConfigTree.Yaml

/-- What a collection begins with: its opening bracket with the text before it, if it has one. -/
def CollectionStyle.opening (style : CollectionStyle) (bracket : Char) : Text :=
  match style with
  | .block => []
  | .flow before _ => before ++ [bracket]

/-- An entry up to its colon. -/
def entryOpening (lead : Text) (key : Scalar) (gap : Text) : Text :=
  lead ++ (Piece.print key.pieces ++ gap ++ [':'])

/-- An item up to its dash, if it has one. -/
def itemOpening (lead : Text) (dash : Bool) : Text := if dash then lead ++ ['-'] else lead

mutual

/-- The value and all nodes below it in printing order, each with the text in front of it. Before
the value stands `before`. -/
def Value.placed (before : Text) : Value → List (Text × Node)
  | .scalar s => [(before, .scalar s)]
  | .mapping m => m.placed before
  | .sequence s => s.placed before

def Mapping.placed (before : Text) : Mapping → List (Text × Node)
  | ⟨id, style, es⟩ =>
    (before, .mapping ⟨id, style, es⟩) :: entriesPlaced (before ++ style.opening '\x7b') es

def entriesPlaced (before : Text) : List Entry → List (Text × Node)
  | [] => []
  | e :: es => e.placed before ++ entriesPlaced (before ++ e.print) es

def Entry.placed (before : Text) : Entry → List (Text × Node)
  | ⟨id, lead, key, gap, value, comma⟩ =>
    (before, .entry ⟨id, lead, key, gap, value, comma⟩) :: (before ++ lead, .scalar key) ::
      value.placed (before ++ entryOpening lead key gap)

def Sequence.placed (before : Text) : Sequence → List (Text × Node)
  | ⟨id, style, is⟩ =>
    (before, .sequence ⟨id, style, is⟩) :: itemsPlaced (before ++ style.opening '[') is

def itemsPlaced (before : Text) : List Item → List (Text × Node)
  | [] => []
  | i :: is => i.placed before ++ itemsPlaced (before ++ i.print) is

def Item.placed (before : Text) : Item → List (Text × Node)
  | ⟨id, lead, dash, value, comma⟩ =>
    (before, .item ⟨id, lead, dash, value, comma⟩) ::
      value.placed (before ++ itemOpening lead dash)

end

/-- What a document has in front of its body. -/
def Document.opening (d : Document) : Text :=
  if d.explicitStart then d.lead ++ ['-', '-', '-'] else d.lead

def Document.placed (before : Text) (d : Document) : List (Text × Node) :=
  (before, .document d) :: d.body.placed (before ++ d.opening)

def documentsPlaced (before : Text) : List Document → List (Text × Node)
  | [] => []
  | d :: ds => d.placed before ++ documentsPlaced (before ++ Piece.print d.pieces) ds

/-- All nodes of the stream in printing order, each with the text in front of it. -/
def Stream.placed (s : Stream) : List (Text × Node) := documentsPlaced [] s.documents

mutual

theorem Value.map_placed (before : Text) (v : Value) : (v.placed before).map Prod.snd = v.nodes := by
  cases v with
  | scalar s => rfl
  | mapping m => exact m.map_placed before
  | sequence s => exact s.map_placed before

theorem Mapping.map_placed (before : Text) (m : Mapping) :
    (m.placed before).map Prod.snd = m.nodes := by
  obtain ⟨id, style, es⟩ := m
  rw [Mapping.placed, Mapping.nodes, List.map_cons, map_entriesPlaced _ es]

theorem map_entriesPlaced (before : Text) (es : List Entry) :
    (entriesPlaced before es).map Prod.snd = entriesNodes es := by
  cases es with
  | nil => rfl
  | cons e es =>
    rw [entriesPlaced, entriesNodes, List.map_append, e.map_placed, map_entriesPlaced _ es]

theorem Entry.map_placed (before : Text) (e : Entry) : (e.placed before).map Prod.snd = e.nodes := by
  obtain ⟨id, lead, key, gap, value, comma⟩ := e
  rw [Entry.placed, Entry.nodes, List.map_cons, List.map_cons, value.map_placed]

theorem Sequence.map_placed (before : Text) (s : Sequence) :
    (s.placed before).map Prod.snd = s.nodes := by
  obtain ⟨id, style, is⟩ := s
  rw [Sequence.placed, Sequence.nodes, List.map_cons, map_itemsPlaced _ is]

theorem map_itemsPlaced (before : Text) (is : List Item) :
    (itemsPlaced before is).map Prod.snd = itemsNodes is := by
  cases is with
  | nil => rfl
  | cons i is =>
    rw [itemsPlaced, itemsNodes, List.map_append, i.map_placed, map_itemsPlaced _ is]

theorem Item.map_placed (before : Text) (i : Item) : (i.placed before).map Prod.snd = i.nodes := by
  obtain ⟨id, lead, dash, value, comma⟩ := i
  rw [Item.placed, Item.nodes, List.map_cons, value.map_placed]

end

theorem map_documentsPlaced (before : Text) (ds : List Document) :
    (documentsPlaced before ds).map Prod.snd = ds.flatMap Document.nodes := by
  induction ds generalizing before with
  | nil => rfl
  | cons d ds ih =>
    rw [documentsPlaced, List.map_append, ih, Document.placed, List.map_cons, Value.map_placed]
    rfl

/-- Every node of a stream has a place. -/
theorem Stream.map_placed (s : Stream) : s.placed.map Prod.snd = s.nodes :=
  map_documentsPlaced [] s.documents

/-! ## Places in a text -/

/-- A node as it stands in its file. -/
def Node.print : Node → Text
  | .document d => Piece.print d.pieces
  | .mapping m => (Value.mapping m).print
  | .entry e => e.print
  | .sequence s => (Value.sequence s).print
  | .item i => i.print
  | .scalar s => (Value.scalar s).print

/-- The rule by which a document or a collection is read from a cursor on. Entries, items and
scalars are parts of these. -/
def Node.ReadFrom (cur : Cursor) : Node → Prop
  | .document d => ∃ last, ReadsDocument cur d last
  | .mapping ⟨_, .block, es⟩ => ∃ last, ReadsEntries cur.token.column cur es last
  | .mapping ⟨id, .flow opening closing, es⟩ =>
    ∃ last, ReadsFlowValue cur (.mapping ⟨id, .flow opening closing, es⟩) last
  | .sequence ⟨_, .block, is⟩ => ∃ last, ReadsItems cur.token.column cur is last
  | .sequence ⟨id, .flow opening closing, is⟩ =>
    ∃ last, ReadsFlowValue cur (.sequence ⟨id, .flow opening closing, is⟩) last
  | .entry _ => True
  | .item _ => True
  | .scalar _ => True

/-- The node stands behind its text in front, counted from `origin`, and is read there. -/
def ReadAtPlace (origin : Cursor) (p : Text × Node) : Prop :=
  ∃ cur last, origin.Takes p.1 cur ∧ cur.Takes p.2.print last ∧ p.2.ReadFrom cur

variable {origin : Cursor}

theorem key_readAtPlace {before : Text} {cur last : Cursor} {key : Scalar}
    {gap after : Text}
    (taken : origin.Takes before cur) (lead : key.lead = []) (unmarked : key.mark = none)
    (h : cur.Takes (key.written ++ gap ++ after) last) : ReadAtPlace origin (before, .scalar key) := by
  refine ⟨cur, cur.past key.written (gap ++ after ++ last.rest), taken, ?_, trivial⟩
  rw [Node.print, Value.print_scalar unmarked, lead]
  refine .past ?_
  rw [h.rest_eq, List.nil_append, List.append_assoc, List.append_assoc, List.append_assoc]

/-- Behind the colon of an entry whose key was read. -/
theorem takes_entryOpening {cur mid last : Cursor} {before lead gap : Text} {key : Scalar}
    (taken : origin.Takes before cur) (token : cur.Takes lead mid) (keyLead : key.lead = [])
    (unmarked : key.mark = none) (h : mid.Takes (key.written ++ gap ++ [':']) last) :
    origin.Takes (before ++ entryOpening lead key gap) last := by
  rw [entryOpening, Scalar.print_pieces unmarked, keyLead, List.nil_append]
  exact taken.trans (token.trans h)

theorem takes_itemOpening {cur here : Cursor} {before lead rest : Text}
    (taken : origin.Takes before cur) (token : cur.Takes lead here) (dash : here.rest = '-' :: rest) :
    origin.Takes (before ++ itemOpening lead true) (here.past ['-'] rest) :=
  taken.trans (token.trans (.past dash))

mutual

theorem ReadsFlowValue.readAtPlace {before : Text} {cur last : Cursor} {v : Value} :
    ReadsFlowValue cur v last → origin.Takes before cur →
      ∀ p ∈ v.placed before, ReadAtPlace origin p
  | .sequence token opening inner, taken => by
    have bracket : cur.Takes (_ ++ ['[']) _ := (cur.takes_of_token token).trans (.past opening)
    have items := inner.readAtPlace (taken.trans bracket)
    refine List.forall_mem_cons.mpr ⟨⟨cur, last, taken, ?_, last, ?_⟩, items⟩
    · exact ReadsFlowValue.takes (.sequence token opening inner)
    · exact .sequence token opening inner
  | .mapping token opening inner, taken => by
    have bracket : cur.Takes (_ ++ ['\x7b']) _ := (cur.takes_of_token token).trans (.past opening)
    have entries := inner.readAtPlace (taken.trans bracket)
    refine List.forall_mem_cons.mpr ⟨⟨cur, last, taken, ?_, last, ?_⟩, entries⟩
    · exact ReadsFlowValue.takes (.mapping token opening inner)
    · exact .mapping token opening inner
  | .scalar _ _ read, taken =>
    List.forall_mem_singleton.mpr ⟨_, _, taken, print_of_readScalar read, trivial⟩

theorem ReadsFlowItems.readAtPlace {before : Text} {cur last : Cursor} {is : List Item}
    {closing : Text} :
    ReadsFlowItems cur is closing last → origin.Takes before cur →
      ∀ p ∈ itemsPlaced before is, ReadAtPlace origin p
  | .close _ _, _ => by simp [itemsPlaced]
  | .item token _ valueRead commaRead others, taken => by
    have atItem := cur.takes_of_token token
    have print := atItem.trans (valueRead.takes.trans (readComma_takes commaRead))
    rw [← Item.print_flow] at print
    have values := valueRead.readAtPlace (taken.trans atItem)
    have items := others.readAtPlace (taken.trans print)
    exact List.forall_mem_append.mpr
      ⟨List.forall_mem_cons.mpr ⟨⟨_, _, taken, print, trivial⟩, values⟩, items⟩

theorem ReadsFlowEntries.readAtPlace {before : Text} {cur last : Cursor} {es : List Entry}
    {closing : Text} :
    ReadsFlowEntries cur es closing last → origin.Takes before cur →
      ∀ p ∈ entriesPlaced before es, ReadAtPlace origin p
  | .close _ _, _ => by simp [entriesPlaced]
  | .entry token _ keyRead valueRead commaRead others, taken => by
    obtain ⟨keyTaken, -, keyLead, unmarked⟩ := readFlowKey_takes keyRead
    have atKey := cur.takes_of_token token
    have print := (atKey.trans keyTaken).trans (valueRead.takes.trans (readComma_takes commaRead))
    rw [← Entry.print_mk unmarked keyLead] at print
    have key := key_readAtPlace (taken.trans atKey) keyLead unmarked keyTaken
    have values := valueRead.readAtPlace (takes_entryOpening taken atKey keyLead unmarked keyTaken)
    have entries := others.readAtPlace (taken.trans print)
    exact List.forall_mem_append.mpr ⟨List.forall_mem_cons.mpr ⟨⟨_, _, taken, print, trivial⟩,
      List.forall_mem_cons.mpr ⟨key, values⟩⟩, entries⟩

theorem ReadsFlowEntryValue.readAtPlace {before : Text} {cur last : Cursor} {v : Value} :
    ReadsFlowEntryValue cur v last → origin.Takes before cur →
      ∀ p ∈ v.placed before, ReadAtPlace origin p
  | .absent empty next, taken => List.forall_mem_singleton.mpr
    ⟨_, _, taken, (ReadsFlowEntryValue.absent empty next).takes, trivial⟩
  | .value _ _ valueRead, taken => valueRead.readAtPlace taken

end

theorem ReadsPlainValue.readAtPlace {floor : Nat} {before : Text} {cur last : Cursor} {v : Value}
    (h : ReadsPlainValue floor cur v last) (taken : origin.Takes before cur) :
    ∀ p ∈ v.placed before, ReadAtPlace origin p := by
  have print := h.takes
  cases h with
  | flow _ valueRead => exact valueRead.readAtPlace taken
  | block => exact List.forall_mem_singleton.mpr ⟨_, _, taken, print, trivial⟩
  | scalar => exact List.forall_mem_singleton.mpr ⟨_, _, taken, print, trivial⟩

theorem absent_readAtPlace {before : Text} {cur : Cursor} {s : Scalar}
    (empty : s.unnumbered = .fresh [] .plain []) (taken : origin.Takes before cur) :
    ∀ p ∈ (Value.scalar s).placed before, ReadAtPlace origin p := by
  refine List.forall_mem_singleton.mpr ⟨cur, cur, taken, ?_, trivial⟩
  rw [Node.print, print_of_empty empty]
  exact .refl cur

theorem ReadsEntries.mapping_readAtPlace {before : Text} {cur last : Cursor} {id : NodeId}
    {es : List Entry} (h : ReadsEntries cur.token.column cur es last)
    (taken : origin.Takes before cur)
    (entries : ∀ p ∈ entriesPlaced before es, ReadAtPlace origin p) :
    ∀ p ∈ (Value.mapping ⟨id, .block, es⟩).placed before, ReadAtPlace origin p := by
  rw [Value.placed, Mapping.placed, CollectionStyle.opening, List.append_nil]
  exact List.forall_mem_cons.mpr ⟨⟨cur, last, taken, h.takes, last, h⟩, entries⟩

theorem ReadsItems.sequence_readAtPlace {before : Text} {cur last : Cursor} {id : NodeId}
    {is : List Item} (h : ReadsItems cur.token.column cur is last) (taken : origin.Takes before cur)
    (items : ∀ p ∈ itemsPlaced before is, ReadAtPlace origin p) :
    ∀ p ∈ (Value.sequence ⟨id, .block, is⟩).placed before, ReadAtPlace origin p := by
  rw [Value.placed, Sequence.placed, CollectionStyle.opening, List.append_nil]
  exact List.forall_mem_cons.mpr ⟨⟨cur, last, taken, h.takes, last, h⟩, items⟩

theorem entry_readAtPlace {before lead gap : Text} {cur here mid last : Cursor} {id : NodeId}
    {key : Scalar} {value : Value} (token : cur.token = ⟨lead, here⟩)
    (keyRead : readKey ⟨lead, here⟩ = .ok ((key.unnumbered, gap), mid))
    (valueTaken : mid.Takes value.print last) (taken : origin.Takes before cur)
    (values : origin.Takes (before ++ entryOpening lead key gap) mid →
      ∀ p ∈ value.placed (before ++ entryOpening lead key gap), ReadAtPlace origin p) :
    cur.Takes (Entry.mk id lead key gap value none).print last ∧
      ∀ p ∈ (Entry.mk id lead key gap value none).placed before, ReadAtPlace origin p := by
  obtain ⟨keyTaken, -, keyLead, unmarked⟩ := readKey_takes keyRead
  have atKey := cur.takes_of_token token
  have print : cur.Takes (Entry.mk id lead key gap value none).print last := by
    rw [Entry.print_mk unmarked keyLead, commaText, List.append_nil]
    exact (atKey.trans keyTaken).trans valueTaken
  have key := key_readAtPlace (taken.trans atKey) keyLead unmarked keyTaken
  have values := values (takes_entryOpening taken atKey keyLead unmarked keyTaken)
  exact ⟨print, List.forall_mem_cons.mpr ⟨⟨cur, last, taken, print, trivial⟩,
    List.forall_mem_cons.mpr ⟨key, values⟩⟩⟩

theorem item_readAtPlace {before lead rest : Text} {cur here last : Cursor} {id : NodeId}
    {value : Value} (token : cur.token = ⟨lead, here⟩) (dash : here.rest = '-' :: rest)
    (valueTaken : (here.past ['-'] rest).Takes value.print last) (taken : origin.Takes before cur)
    (values : origin.Takes (before ++ itemOpening lead true) (here.past ['-'] rest) →
      ∀ p ∈ value.placed (before ++ itemOpening lead true), ReadAtPlace origin p) :
    cur.Takes (Item.mk id lead true value none).print last ∧
      ∀ p ∈ (Item.mk id lead true value none).placed before, ReadAtPlace origin p := by
  have atDash := cur.takes_of_token token
  have print : cur.Takes (Item.mk id lead true value none).print last := by
    rw [Item.print_dash]
    exact (atDash.trans (.past dash)).trans valueTaken
  exact ⟨print, List.forall_mem_cons.mpr ⟨⟨cur, last, taken, print, trivial⟩,
    values (takes_itemOpening taken atDash dash)⟩⟩

mutual

theorem ReadsValue.readAtPlace {floor : Nat} {before : Text} {cur last : Cursor} {v : Value} :
    ReadsValue floor cur v last → origin.Takes before cur →
      ∀ p ∈ v.placed before, ReadAtPlace origin p
  | .sequence _ itemsRead, taken => itemsRead.sequence_readAtPlace taken (itemsRead.readAtPlace taken)
  | .mapping _ _ entriesRead, taken =>
    entriesRead.mapping_readAtPlace taken (entriesRead.readAtPlace taken)
  | .plain _ _ valueRead, taken => valueRead.readAtPlace taken

theorem ReadsEntries.readAtPlace {column : Nat} {before : Text} {cur last : Cursor}
    {es : List Entry} :
    ReadsEntries column cur es last → origin.Takes before cur →
      ∀ p ∈ entriesPlaced before es, ReadAtPlace origin p
  | .last token keyRead valueRead _, taken => by
    obtain ⟨-, entry⟩ := entry_readAtPlace token keyRead valueRead.takes taken valueRead.readAtPlace
    exact List.forall_mem_append.mpr ⟨entry, by simp [entriesPlaced]⟩
  | .more token keyRead valueRead _ others, taken => by
    obtain ⟨print, entry⟩ :=
      entry_readAtPlace token keyRead valueRead.takes taken valueRead.readAtPlace
    exact List.forall_mem_append.mpr ⟨entry, others.readAtPlace (taken.trans print)⟩

theorem ReadsEntryValue.readAtPlace {column : Nat} {before : Text} {cur last : Cursor}
    {v : Value} :
    ReadsEntryValue column cur v last → origin.Takes before cur →
      ∀ p ∈ v.placed before, ReadAtPlace origin p
  | .absent empty _, taken => absent_readAtPlace empty taken
  | .inline _ _ _ _ valueRead, taken => valueRead.readAtPlace taken
  | .nested _ _ _ valueRead, taken => valueRead.readAtPlace taken
  | .sequence _ _ level _ itemsRead, taken =>
    ReadsItems.sequence_readAtPlace (level ▸ itemsRead) taken (itemsRead.readAtPlace taken)

theorem ReadsItems.readAtPlace {column : Nat} {before : Text} {cur last : Cursor}
    {is : List Item} :
    ReadsItems column cur is last → origin.Takes before cur →
      ∀ p ∈ itemsPlaced before is, ReadAtPlace origin p
  | .last token dash _ valueRead _, taken => by
    obtain ⟨-, item⟩ := item_readAtPlace token dash valueRead.takes taken valueRead.readAtPlace
    exact List.forall_mem_append.mpr ⟨item, by simp [itemsPlaced]⟩
  | .more token dash _ valueRead _ others, taken => by
    obtain ⟨print, item⟩ :=
      item_readAtPlace token dash valueRead.takes taken valueRead.readAtPlace
    exact List.forall_mem_append.mpr ⟨item, others.readAtPlace (taken.trans print)⟩

theorem ReadsItemValue.readAtPlace {column : Nat} {before : Text} {cur last : Cursor}
    {v : Value} :
    ReadsItemValue column cur v last → origin.Takes before cur →
      ∀ p ∈ v.placed before, ReadAtPlace origin p
  | .absent empty _, taken => absent_readAtPlace empty taken
  | .value _ _ valueRead, taken => valueRead.readAtPlace taken

end

theorem ReadsBody.readAtPlace {before : Text} {cur last : Cursor} {v : Value}
    (h : ReadsBody cur v last) (taken : origin.Takes before cur) :
    ∀ p ∈ v.placed before, ReadAtPlace origin p := by
  cases h with
  | absent empty _ => exact absent_readAtPlace empty taken
  | value _ valueRead => exact valueRead.readAtPlace taken

theorem ReadsDocument.readAtPlace {before : Text} {cur last : Cursor} {d : Document}
    (h : ReadsDocument cur d last) (taken : origin.Takes before cur) :
    ∀ p ∈ d.placed before, ReadAtPlace origin p := by
  refine List.forall_mem_cons.mpr ⟨⟨cur, last, taken, h.takes, last, h⟩, ?_⟩
  cases h with
  | document start lead explicitStart bodyRead ending =>
    have opened := readDocumentStart_takes start
    rw [← lead, ← explicitStart] at opened
    exact bodyRead.readAtPlace (taken.trans opened)

theorem ReadsDocuments.readAtPlace {before : Text} {cur : Cursor} {ds : List Document}
    {trailer : Text} (h : ReadsDocuments cur ds trailer) (taken : origin.Takes before cur) :
    ∀ p ∈ documentsPlaced before ds, ReadAtPlace origin p := by
  induction h generalizing before with
  | last documentRead _ =>
    exact List.forall_mem_append.mpr ⟨documentRead.readAtPlace taken, by simp [documentsPlaced]⟩
  | more documentRead _ _ ih =>
    exact List.forall_mem_append.mpr
      ⟨documentRead.readAtPlace taken, ih (taken.trans documentRead.takes)⟩

/-- In a stream that was read every node is read at its place. -/
theorem readAtPlace_of_parse {text : Text} {s : Stream} (parsed : parse text = .ok s) :
    ∀ p ∈ s.placed, ReadAtPlace (.start text) p :=
  ReadsDocuments.readAtPlace (readsStream_of_parse parsed) (.refl _)

/-- A node that is read at its place stands there in the text. -/
theorem ReadAtPlace.isPrefix {text : Text} {p : Text × Node} (h : ReadAtPlace (.start text) p) :
    p.1 ++ p.2.print <+: text := by
  obtain ⟨cur, last, before, print, -⟩ := h
  exact ⟨last.rest, (before.trans print).rest_eq.symm⟩

end ConfigTree.Yaml
