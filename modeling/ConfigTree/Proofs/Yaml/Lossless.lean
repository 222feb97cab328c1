import ConfigTree.Proofs.Yaml.Grammar

/-!
# Printing undoes reading

Each rule of reading takes from the text exactly what its result prints as. The rules for the parts
of a value are composed with `Cursor.Takes.trans`; the induction is on the derivation.
-/

namespace ConfigTree.Yaml

theorem Scalar.print_pieces {s : Scalar} (unmarked : s.mark = none) :
    Piece.print s.pieces = s.lead ++ s.written := by
  simp [Scalar.pieces, unmarked]

theorem print_commaPieces (comma : Option Text) :
    Piece.print (commaPieces comma) = commaText comma := by
  cases comma <;> simp [commaPieces, commaText]

theorem print_around_flow (opening closing : Char) (before last : Text)
    (inner : List (Piece Scalar)) :
    Piece.print ((CollectionStyle.flow before last).around opening closing inner) =
      before ++ [opening] ++ (Piece.print inner ++ (last ++ [closing])) := by
  simp [CollectionStyle.around]

/-- The entries one after the other, as printed. -/
def entriesPrint (es : List Entry) : Text := Piece.print (entriesPieces es)

/-- The items one after the other, as printed. -/
def itemsPrint (is : List Item) : Text := Piece.print (itemsPieces is)

@[simp] theorem entriesPrint_nil : entriesPrint [] = [] := rfl

@[simp] theorem itemsPrint_nil : itemsPrint [] = [] := rfl

@[simp] theorem entriesPrint_cons (e : Entry) (es : List Entry) :
    entriesPrint (e :: es) = e.print ++ entriesPrint es := by
  simp [entriesPrint, entriesPieces, Entry.print]

@[simp] theorem itemsPrint_cons (i : Item) (is : List Item) :
    itemsPrint (i :: is) = i.print ++ itemsPrint is := by
  simp [itemsPrint, itemsPieces, Item.print]

namespace Value

theorem print_scalar {s : Scalar} (unmarked : s.mark = none) :
    (Value.scalar s).print = s.lead ++ s.written := by
  simp only [Value.print, Value.pieces, Scalar.print_pieces unmarked]

@[simp] theorem print_flow_mapping (id : NodeId) (before last : Text) (es : List Entry) :
    (Value.mapping ⟨id, .flow before last, es⟩).print =
      before ++ ['\x7b'] ++ (entriesPrint es ++ (last ++ ['\x7d'])) := by
  simp only [Value.print, Value.pieces, Mapping.pieces, print_around_flow, entriesPrint]

@[simp] theorem print_flow_sequence (id : NodeId) (before last : Text) (is : List Item) :
    (Value.sequence ⟨id, .flow before last, is⟩).print =
      before ++ ['['] ++ (itemsPrint is ++ (last ++ [']'])) := by
  simp only [Value.print, Value.pieces, Sequence.pieces, print_around_flow, itemsPrint]

end Value

theorem Entry.print_mk {key : Scalar} (unmarked : key.mark = none) (lead : key.lead = [])
    (id : NodeId) (before gap : Text) (value : Value) (comma : Option Text) :
    (Entry.mk id before key gap value comma).print =
      before ++ (key.written ++ gap ++ [':']) ++ (value.print ++ commaText comma) := by
  simp [Entry.print, Entry.pieces, Scalar.print_pieces unmarked, lead, print_commaPieces,
    Value.print]

theorem Item.print_dash (id : NodeId) (before : Text) (value : Value) :
    (Item.mk id before true value none).print = before ++ ['-'] ++ value.print := by
  simp [Item.print, Item.pieces, Value.print, commaPieces]

theorem Item.print_flow (id : NodeId) (before : Text) (value : Value) (comma : Option Text) :
    (Item.mk id before false value comma).print = before ++ (value.print ++ commaText comma) := by
  simp [Item.print, Item.pieces, Value.print, print_commaPieces]

theorem Document.print_pieces (d : Document) :
    Piece.print d.pieces =
      (if d.explicitStart then d.lead ++ ['-', '-', '-'] else d.lead) ++
        (d.body.print ++ (if d.explicitEnd then d.tail ++ ['.', '.', '.'] else d.tail)) := by
  simp [Document.pieces, Value.print]

theorem Stream.print_eq (s : Stream) :
    s.print = (s.documents.flatMap fun d => Piece.print d.pieces) ++ s.trailer := by
  simp only [Stream.print, Stream.pieces, Piece.print_append]
  congr 1
  · induction s.documents with
    | nil => rfl
    | cons d ds ih => rw [List.flatMap_cons, Piece.print_append, ih, List.flatMap_cons]
  · simp

/-- A scalar that was read prints as its lead and itself. -/
theorem print_of_readScalar {inFlow : Bool} {cur last : Cursor} {s : Scalar}
    (h : readScalar inFlow cur.token = .ok (s.unnumbered, last)) :
    cur.Takes (Value.scalar s).print last := by
  obtain ⟨taken, -, lead, unmarked⟩ := readScalar_takes h
  rw [Value.print_scalar unmarked, lead]
  exact cur.takes_token.trans taken

theorem print_of_empty {s : Scalar} (h : s.unnumbered = .fresh [] .plain []) :
    (Value.scalar s).print = [] := by
  have unmarked : s.mark = none := congrArg Scalar.mark h
  have lead : s.lead = [] := congrArg Scalar.lead h
  have written : s.written = [] := congrArg Scalar.written h
  rw [Value.print_scalar unmarked, lead, written]
  rfl

mutual

theorem ReadsFlowValue.takes {cur last : Cursor} {v : Value} :
    ReadsFlowValue cur v last → cur.Takes v.print last
  | .sequence token opening inner => by
    rw [Value.print_flow_sequence, List.append_assoc]
    exact (cur.takes_of_token token).trans ((Cursor.Takes.past opening).trans inner.takes)
  | .mapping token opening inner => by
    rw [Value.print_flow_mapping, List.append_assoc]
    exact (cur.takes_of_token token).trans ((Cursor.Takes.past opening).trans inner.takes)
  | .scalar _ _ read => print_of_readScalar read

theorem ReadsFlowItems.takes {cur last : Cursor} {is : List Item} {closing : Text} :
    ReadsFlowItems cur is closing last → cur.Takes (itemsPrint is ++ (closing ++ [']'])) last
  | .close token closing => (cur.takes_of_token token).trans (.past closing)
  | .item token _ valueRead commaRead others => by
    rw [itemsPrint_cons, Item.print_flow, List.append_assoc, List.append_assoc, List.append_assoc]
    exact (cur.takes_of_token token).trans
      (valueRead.takes.trans ((readComma_takes commaRead).trans others.takes))

theorem ReadsFlowEntries.takes {cur last : Cursor} {es : List Entry} {closing : Text} :
    ReadsFlowEntries cur es closing last → cur.Takes (entriesPrint es ++ (closing ++ ['\x7d'])) last
  | .close token closing => (cur.takes_of_token token).trans (.past closing)
  | .entry token _ keyRead valueRead commaRead others => by
    obtain ⟨taken, -, lead, unmarked⟩ := readFlowKey_takes keyRead
    rw [entriesPrint_cons, Entry.print_mk unmarked lead]
    have key := (cur.takes_of_token token).trans taken
    have rest := valueRead.takes.trans ((readComma_takes commaRead).trans others.takes)
    simpa only [List.append_assoc] using key.trans rest

theorem ReadsFlowEntryValue.takes {cur last : Cursor} {v : Value} :
    ReadsFlowEntryValue cur v last → cur.Takes v.print last
  | .absent empty _ => by
    rw [print_of_empty empty]
    exact .refl cur
  | .value _ _ valueRead => valueRead.takes

end

theorem ReadsPlainValue.takes {floor : Nat} {cur last : Cursor} {v : Value}
    (h : ReadsPlainValue floor cur v last) : cur.Takes v.print last := by
  cases h with
  | flow _ valueRead => exact valueRead.takes
  | block indicator opening read =>
    obtain ⟨taken, -, lead, unmarked⟩ := readBlockScalar_takes indicator opening read
    rw [Value.print_scalar unmarked, lead]
    exact cur.takes_token.trans taken
  | scalar _ read => exact print_of_readScalar read

mutual

theorem ReadsValue.takes {floor : Nat} {cur last : Cursor} {v : Value} :
    ReadsValue floor cur v last → cur.Takes v.print last
  | .sequence _ itemsRead => itemsRead.takes
  | .mapping _ _ entriesRead => entriesRead.takes
  | .plain _ _ valueRead => valueRead.takes

theorem ReadsEntries.takes {column : Nat} {cur last : Cursor} {es : List Entry} :
    ReadsEntries column cur es last → cur.Takes (entriesPrint es) last
  | .last token keyRead valueRead _ => by
    obtain ⟨taken, -, lead, unmarked⟩ := readKey_takes keyRead
    rw [entriesPrint_cons, Entry.print_mk unmarked lead]
    simpa [commaText] using ((cur.takes_of_token token).trans taken).trans valueRead.takes
  | .more token keyRead valueRead _ others => by
    obtain ⟨taken, -, lead, unmarked⟩ := readKey_takes keyRead
    rw [entriesPrint_cons, Entry.print_mk unmarked lead]
    have entry := ((cur.takes_of_token token).trans taken).trans valueRead.takes
    simpa [commaText] using entry.trans others.takes

theorem ReadsEntryValue.takes {column : Nat} {cur last : Cursor} {v : Value} :
    ReadsEntryValue column cur v last → cur.Takes v.print last
  | .absent empty _ => by
    rw [print_of_empty empty]
    exact .refl cur
  | .inline _ _ _ _ valueRead => valueRead.takes
  | .nested _ _ _ valueRead => valueRead.takes
  | .sequence _ _ _ _ itemsRead => itemsRead.takes

theorem ReadsItems.takes {column : Nat} {cur last : Cursor} {is : List Item} :
    ReadsItems column cur is last → cur.Takes (itemsPrint is) last
  | .last token dash _ valueRead _ => by
    rw [itemsPrint_cons, Item.print_dash]
    have item := ((cur.takes_of_token token).trans (.past dash)).trans valueRead.takes
    simpa using item
  | .more token dash _ valueRead _ others => by
    rw [itemsPrint_cons, Item.print_dash]
    have item := ((cur.takes_of_token token).trans (.past dash)).trans valueRead.takes
    exact item.trans others.takes

theorem ReadsItemValue.takes {column : Nat} {cur last : Cursor} {v : Value} :
    ReadsItemValue column cur v last → cur.Takes v.print last
  | .absent empty _ => by
    rw [print_of_empty empty]
    exact .refl cur
  | .value _ _ valueRead => valueRead.takes

end

theorem ReadsBody.takes {cur last : Cursor} {v : Value} (h : ReadsBody cur v last) :
    cur.Takes v.print last := by
  cases h with
  | absent empty _ =>
    rw [print_of_empty empty]
    exact .refl cur
  | value _ valueRead => exact valueRead.takes

theorem ReadsDocument.takes {cur last : Cursor} {d : Document} (h : ReadsDocument cur d last) :
    cur.Takes (Piece.print d.pieces) last := by
  cases h with
  | document start lead explicitStart bodyRead ending =>
    have opened := readDocumentStart_takes start
    rw [← lead, ← explicitStart] at opened
    rw [Document.print_pieces]
    exact opened.trans (bodyRead.takes.trans (readDocumentEnd_takes ending))

/-- Without an end marker a document ends where the next one starts, or at the end of the text. -/
theorem ReadsDocument.lead_eq_nil {cur last : Cursor} {d : Document} (h : ReadsDocument cur d last)
    (unmarked : d.explicitEnd = false) : last.token.lead = [] := by
  cases h with
  | document _ _ _ _ ending =>
    obtain ⟨-, ⟨marked, -, -⟩ | ⟨-, -, -, rfl⟩⟩ := readDocumentEnd_eq_ok.mp ending
    · rw [unmarked] at marked
      contradiction
    · rw [Cursor.token_token]

theorem Token.rest_eq_nil {tok : Token} (h : tok.atEnd = true) : tok.here.rest = [] :=
  List.isEmpty_iff.mp h

theorem ReadsDocuments.rest_eq {cur : Cursor} {ds : List Document} {trailer : Text}
    (h : ReadsDocuments cur ds trailer) :
    cur.rest = (ds.flatMap fun d => Piece.print d.pieces) ++ trailer := by
  induction h with
  | @last cur last d documentRead ends =>
    have left : last.rest = last.token.lead := by
      rw [last.takes_token.rest_eq, Token.rest_eq_nil ends, List.append_nil]
    rw [documentRead.takes.rest_eq, left]
    cases marked : d.explicitEnd with
    | true => simp
    | false => simp [documentRead.lead_eq_nil marked]
  | more documentRead _ _ ih =>
    rw [documentRead.takes.rest_eq, ih, List.flatMap_cons, List.append_assoc]

/-- A stream prints as the text it was read from. -/
theorem ReadsStream.print_eq {text : Text} {s : Stream} (h : ReadsStream text s) :
    s.print = text := by
  rw [s.print_eq]
  exact (ReadsDocuments.rest_eq h).symm

end ConfigTree.Yaml
