import ConfigTree.Proofs.Yaml.Scanning

/-!
# The rules of reading

The readers of `ConfigTree.Yaml.Parse` as relations between a cursor, what is read there and the
cursor after it: one rule for each way in which a reader can succeed, without its step budget.
Everything that holds of every tree that was read is proved by induction on these rules. Nodes may
have any identity, so that the rules speak of numbered trees as well as of those that have just been
read.
-/

namespace ConfigTree.Yaml

mutual

/-- A value inside a flow collection, or a flow collection itself. -/
inductive ReadsFlowValue : Cursor → Value → Cursor → Prop where
  | sequence {cur here last : Cursor} {lead rest closing : Text} {id : NodeId} {items : List Item}
      (token : cur.token = ⟨lead, here⟩) (opening : here.rest = '[' :: rest)
      (inner : ReadsFlowItems (here.past ['['] rest) items closing last) :
      ReadsFlowValue cur (.sequence ⟨id, .flow lead closing, items⟩) last
  | mapping {cur here last : Cursor} {lead rest closing : Text} {id : NodeId} {entries : List Entry}
      (token : cur.token = ⟨lead, here⟩) (opening : here.rest = '\x7b' :: rest)
      (inner : ReadsFlowEntries (here.past ['\x7b'] rest) entries closing last) :
      ReadsFlowValue cur (.mapping ⟨id, .flow lead closing, entries⟩) last
  | scalar {cur last : Cursor} {s : Scalar}
      (notSequence : cur.token.here.rest.head? ≠ some '[')
      (notMapping : cur.token.here.rest.head? ≠ some '\x7b')
      (read : readScalar true cur.token = .ok (s.unnumbered, last)) :
      ReadsFlowValue cur (.scalar s) last

/-- The items of a flow sequence with its closing bracket and what stands before that. -/
inductive ReadsFlowItems : Cursor → List Item → Text → Cursor → Prop where
  | close {cur here : Cursor} {lead rest : Text}
      (token : cur.token = ⟨lead, here⟩) (closing : here.rest = ']' :: rest) :
      ReadsFlowItems cur [] lead (here.past [']'] rest)
  | item {cur here mid next last : Cursor} {lead closing : Text} {id : NodeId} {value : Value}
      {comma : Option Text} {items : List Item}
      (token : cur.token = ⟨lead, here⟩) (notClosing : here.rest.head? ≠ some ']')
      (valueRead : ReadsFlowValue here value mid)
      (commaRead : readComma ']' mid = .ok (comma, next))
      (others : ReadsFlowItems next items closing last) :
      ReadsFlowItems cur (⟨id, lead, false, value, comma⟩ :: items) closing last

/-- The entries of a flow mapping with its closing brace and what stands before that. -/
inductive ReadsFlowEntries : Cursor → List Entry → Text → Cursor → Prop where
  | close {cur here : Cursor} {lead rest : Text}
      (token : cur.token = ⟨lead, here⟩) (closing : here.rest = '\x7d' :: rest) :
      ReadsFlowEntries cur [] lead (here.past ['\x7d'] rest)
  | entry {cur here afterColon mid next last : Cursor} {lead gap closing : Text} {id : NodeId}
      {key : Scalar} {value : Value} {comma : Option Text} {entries : List Entry}
      (token : cur.token = ⟨lead, here⟩) (notClosing : here.rest.head? ≠ some '\x7d')
      (keyRead : readFlowKey here = .ok ((key.unnumbered, gap), afterColon))
      (valueRead : ReadsFlowEntryValue afterColon value mid)
      (commaRead : readComma '\x7d' mid = .ok (comma, next))
      (others : ReadsFlowEntries next entries closing last) :
      ReadsFlowEntries cur (⟨id, lead, key, gap, value, comma⟩ :: entries) closing last

/-- The value after the colon of a flow mapping entry. -/
inductive ReadsFlowEntryValue : Cursor → Value → Cursor → Prop where
  | absent {cur : Cursor} {s : Scalar} (empty : s.unnumbered = .fresh [] .plain [])
      (next : cur.token.here.rest.head? = some ',' ∨ cur.token.here.rest.head? = some '\x7d') :
      ReadsFlowEntryValue cur (.scalar s) cur
  | value {cur last : Cursor} {v : Value} (notComma : cur.token.here.rest.head? ≠ some ',')
      (notClosing : cur.token.here.rest.head? ≠ some '\x7d')
      (valueRead : ReadsFlowValue cur v last) :
      ReadsFlowEntryValue cur v last

end

/-- A value that opens no block collection. -/
inductive ReadsPlainValue (floor : Nat) : Cursor → Value → Cursor → Prop where
  | flow {cur last : Cursor} {v : Value}
      (opening : cur.token.here.rest.head? = some '[' ∨ cur.token.here.rest.head? = some '\x7b')
      (valueRead : ReadsFlowValue cur v last) : ReadsPlainValue floor cur v last
  | block {cur last : Cursor} {style : ScalarStyle} {c : Char} {rest : Text} {s : Scalar}
      (indicator : isIndicatorOf style c) (opening : cur.token.here.rest = c :: rest)
      (read : readBlockScalar style floor cur.token rest = (s.unnumbered, last)) :
      ReadsPlainValue floor cur (.scalar s) last
  | scalar {cur last : Cursor} {s : Scalar}
      (notIndicator : ∀ c ∈ cur.token.here.rest.head?, c ∉ ['[', '\x7b', '|', '>'])
      (read : readScalar false cur.token = .ok (s.unnumbered, last)) :
      ReadsPlainValue floor cur (.scalar s) last

mutual

/-- A value where a block collection may open. -/
inductive ReadsValue : Nat → Cursor → Value → Cursor → Prop where
  | sequence {floor : Nat} {cur last : Cursor} {id : NodeId} {items : List Item}
      (opens : opensItem cur.token.here.rest = true)
      (itemsRead : ReadsItems cur.token.column cur items last) :
      ReadsValue floor cur (.sequence ⟨id, .block, items⟩) last
  | mapping {floor : Nat} {cur last : Cursor} {id : NodeId} {entries : List Entry}
      (notItem : opensItem cur.token.here.rest = false)
      (opens : opensEntry cur.token.here.rest = true)
      (entriesRead : ReadsEntries cur.token.column cur entries last) :
      ReadsValue floor cur (.mapping ⟨id, .block, entries⟩) last
  | plain {floor : Nat} {cur last : Cursor} {v : Value}
      (notItem : opensItem cur.token.here.rest = false)
      (notEntry : opensEntry cur.token.here.rest = false)
      (valueRead : ReadsPlainValue floor cur v last) : ReadsValue floor cur v last

/-- The entries of the block mapping at `column`. -/
inductive ReadsEntries : Nat → Cursor → List Entry → Cursor → Prop where
  | last {column : Nat} {cur here afterColon last : Cursor} {lead gap : Text} {id : NodeId}
      {key : Scalar} {value : Value} (token : cur.token = ⟨lead, here⟩)
      (keyRead : readKey ⟨lead, here⟩ = .ok ((key.unnumbered, gap), afterColon))
      (valueRead : ReadsEntryValue column afterColon value last)
      (next : nextEntry column last = .ok none) :
      ReadsEntries column cur [⟨id, lead, key, gap, value, none⟩] last
  | more {column : Nat} {cur here afterColon mid last : Cursor} {lead gap : Text} {id : NodeId}
      {key : Scalar} {value : Value} {entries : List Entry} (token : cur.token = ⟨lead, here⟩)
      (keyRead : readKey ⟨lead, here⟩ = .ok ((key.unnumbered, gap), afterColon))
      (valueRead : ReadsEntryValue column afterColon value mid)
      (next : nextEntry column mid = .ok (some mid.token))
      (others : ReadsEntries column mid entries last) :
      ReadsEntries column cur (⟨id, lead, key, gap, value, none⟩ :: entries) last

/-- The value after the colon of an entry at `column`. -/
inductive ReadsEntryValue : Nat → Cursor → Value → Cursor → Prop where
  | absent {column : Nat} {cur : Cursor} {s : Scalar} (empty : s.unnumbered = .fresh [] .plain [])
      (next : cur.token.endsDocument = true ∨ cur.token.onNewLine = true ∧
        cur.token.column ≤ column ∧
          ¬ (cur.token.column = column ∧ opensItem cur.token.here.rest = true)) :
      ReadsEntryValue column cur (.scalar s) cur
  | inline {column : Nat} {cur last : Cursor} {v : Value} (more : cur.token.endsDocument = false)
      (sameLine : cur.token.onNewLine = false) (notItem : opensItem cur.token.here.rest = false)
      (notEntry : opensEntry cur.token.here.rest = false)
      (valueRead : ReadsPlainValue (column + 1) cur v last) : ReadsEntryValue column cur v last
  | nested {column : Nat} {cur last : Cursor} {v : Value} (more : cur.token.endsDocument = false)
      (newLine : cur.token.onNewLine = true) (inside : column < cur.token.column)
      (valueRead : ReadsValue (column + 1) cur v last) : ReadsEntryValue column cur v last
  | sequence {column : Nat} {cur last : Cursor} {id : NodeId} {items : List Item}
      (more : cur.token.endsDocument = false) (newLine : cur.token.onNewLine = true)
      (level : cur.token.column = column) (opens : opensItem cur.token.here.rest = true)
      (itemsRead : ReadsItems column cur items last) :
      ReadsEntryValue column cur (.sequence ⟨id, .block, items⟩) last

/-- The items of the block sequence at `column`. -/
inductive ReadsItems : Nat → Cursor → List Item → Cursor → Prop where
  | last {column : Nat} {cur here last : Cursor} {lead rest : Text} {id : NodeId} {value : Value}
      (token : cur.token = ⟨lead, here⟩) (dash : here.rest = '-' :: rest)
      (opens : blankOrEnd rest = true)
      (valueRead : ReadsItemValue column (here.past ['-'] rest) value last)
      (next : nextItem column last = .ok none) :
      ReadsItems column cur [⟨id, lead, true, value, none⟩] last
  | more {column : Nat} {cur here mid last : Cursor} {lead rest : Text} {id : NodeId}
      {value : Value}
      {items : List Item} (token : cur.token = ⟨lead, here⟩) (dash : here.rest = '-' :: rest)
      (opens : blankOrEnd rest = true)
      (valueRead : ReadsItemValue column (here.past ['-'] rest) value mid)
      (next : nextItem column mid = .ok (some mid.token))
      (others : ReadsItems column mid items last) :
      ReadsItems column cur (⟨id, lead, true, value, none⟩ :: items) last

/-- The value after the dash of an item at `column`. -/
inductive ReadsItemValue : Nat → Cursor → Value → Cursor → Prop where
  | absent {column : Nat} {cur : Cursor} {s : Scalar} (empty : s.unnumbered = .fresh [] .plain [])
      (next : cur.token.endsDocument = true ∨
        cur.token.onNewLine = true ∧ cur.token.column ≤ column) :
      ReadsItemValue column cur (.scalar s) cur
  | value {column : Nat} {cur last : Cursor} {v : Value} (more : cur.token.endsDocument = false)
      (inside : cur.token.onNewLine = true → column < cur.token.column)
      (valueRead : ReadsValue (column + 1) cur v last) : ReadsItemValue column cur v last

end

/-- The body of a document. -/
inductive ReadsBody : Cursor → Value → Cursor → Prop where
  | absent {cur : Cursor} {s : Scalar} (empty : s.unnumbered = .fresh [] .plain [])
      (ends : cur.token.endsDocument = true) : ReadsBody cur (.scalar s) cur
  | value {cur last : Cursor} {v : Value} (more : cur.token.endsDocument = false)
      (valueRead : ReadsValue 0 cur v last) : ReadsBody cur v last

/-- One document. -/
inductive ReadsDocument : Cursor → Document → Cursor → Prop where
  | document {cur afterStart afterBody last : Cursor} {opening : Option Text} {d : Document}
      (start : readDocumentStart cur = (opening, afterStart))
      (lead : d.lead = opening.getD []) (explicitStart : d.explicitStart = opening.isSome)
      (bodyRead : ReadsBody afterStart d.body afterBody)
      (ending : readDocumentEnd afterBody = .ok ((d.tail, d.explicitEnd), last)) :
      ReadsDocument cur d last

/-- The documents of a stream and what follows them. -/
inductive ReadsDocuments : Cursor → List Document → Text → Prop where
  | last {cur last : Cursor} {d : Document} (documentRead : ReadsDocument cur d last)
      (ends : last.token.atEnd = true) :
      ReadsDocuments cur [d] (if d.explicitEnd then last.token.lead else [])
  | more {cur mid : Cursor} {d : Document} {ds : List Document} {trailer : Text}
      (documentRead : ReadsDocument cur d mid) (goesOn : mid.token.atEnd = false)
      (others : ReadsDocuments mid ds trailer) : ReadsDocuments cur (d :: ds) trailer

/-- The stream in a text. -/
def ReadsStream (text : Text) (s : Stream) : Prop :=
  ReadsDocuments (.start text) s.documents s.trailer

end ConfigTree.Yaml
