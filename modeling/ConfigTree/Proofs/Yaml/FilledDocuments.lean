import ConfigTree.Proofs.Yaml.BlockFilling

/-!
# Reading streams with a value filled in

The document with the filled value is read from the edited text, the documents in front of it see
the same markers ahead, and those behind it begin at the same place.
-/

namespace ConfigTree.Yaml

/-- The second list of documents is the first with a value filled in in one of them. -/
inductive DocumentsFilled (style : CollectionStyle) (key new : Scalar) :
    List Document → List Document → Prop where
  | here {d : Document} {id : NodeId} {body : Value} {ds : List Document}
      (edit : Value.Filled style key new d.body body) :
      DocumentsFilled style key new (d :: ds) ({ d with id, body } :: ds)
  | later {d : Document} {ds ds' : List Document} (others : DocumentsFilled style key new ds ds') :
      DocumentsFilled style key new (d :: ds) (d :: ds')

variable {style : CollectionStyle} {key new : Scalar}

theorem endsDocument_of_brace {tok : Token} (h : tok.here.rest.head? = some '\x7b') :
    tok.endsDocument = false := by
  obtain ⟨rest, here⟩ := List.head?_eq_some_iff.mp h
  have notStart : opensDocument tok.here.rest = false := by
    rw [here]
    rfl
  have notEnd : closesDocument tok.here.rest = false := by
    rw [here]
    rfl
  rw [Token.endsDocument, Token.atMarker, Token.atDocumentStart, Token.atDocumentEnd, notStart,
    notEnd, Token.atEnd, here]
  simp

theorem endsDocument_of_readDocumentEnd {cur last : Cursor} {tail : Text} {marked : Bool}
    (h : readDocumentEnd cur = .ok ((tail, marked), last)) : cur.token.endsDocument = true := by
  obtain ⟨-, ⟨-, marker, -⟩ | ⟨-, -, ends, -⟩⟩ := readDocumentEnd_eq_ok.mp h
  · rw [Token.endsDocument, Token.atMarker, marker]
    simp
  · exact ends

/-- In the middle of a line a document only ends with the text. -/
theorem Cursor.quiet_of_documentEnd {cur : Cursor} (ends : cur.token.endsDocument = true)
    (position : 0 < cur.column) : cur.Quiet := by
  cases newLine : cur.token.onNewLine with
  | true => exact .inl newLine
  | false =>
    refine .inr (List.isEmpty_iff.mpr ?_)
    by_contra more
    have inside := Nat.lt_of_lt_of_le position (Cursor.column_le_token newLine)
    rw [endsDocument_eq_false more (.inl inside)] at ends
    contradiction

theorem ReadsBody.head_filled {cur last : Cursor} {u u' : Value} (h : ReadsBody cur u last)
    (edit : Value.Filled style key new u u') (rest : Text) :
    (u'.print ++ rest).head? = cur.rest.head? := by
  cases h with
  | absent => cases edit
  | value more valueRead => exact valueRead.head_filled edit rest

/-- A filled body is read from the edited text. -/
theorem ReadsBody.filled {cur cur' last : Cursor} {u u' : Value} (fills : new.Fills)
    (inFlow : style ≠ .block) (quoted : key.style ≠ .plain) (h : ReadsBody cur u last)
    (edit : Value.Filled style key new u u') (aligned : cur.Aligned cur')
    (text' : cur'.rest = u'.print ++ last.rest) (ends : last.token.endsDocument = true) :
    ∃ last', ReadsBody cur' u' last' ∧ last.Rejoins last' ∧ cur'.token.endsDocument = false := by
  have quiet := Cursor.quiet_of_documentEnd ends
  cases h with
  | absent => cases edit
  | value more valueRead =>
    obtain ⟨last', valueRead', last⟩ :=
      valueRead.filled fills inFlow quoted edit aligned text' quiet
    have more' : cur'.token.endsDocument = false := by
      cases valueRead with
      | sequence => cases edit
      | mapping notItem opens entriesRead =>
        cases edit with
        | mapping entries =>
          have resumes : cur.Resumes cur' :=
            ⟨aligned.meets, text' ▸ entriesRead.ahead_filled inFlow entries⟩
          exact resumes.endsDocument.trans more
      | plain notItem notEntry valueRead =>
        obtain ⟨-, -, brace, -⟩ := valueRead.filled fills quoted edit aligned text' quiet
        exact endsDocument_of_brace brace
    exact ⟨last', .value more' valueRead', last, more'⟩

theorem startText_of_readDocumentStart {d : Document} {opening : Option Text}
    (lead : d.lead = opening.getD []) (explicitStart : d.explicitStart = opening.isSome) :
    d.startText =
      if opening.isSome then opening.getD [] ++ ['-', '-', '-'] else opening.getD [] := by
  rw [Document.startText, lead, explicitStart]

/-- A start marker is seen if the blank behind it stays. -/
theorem Ahead.of_marker {cur afterStart : Cursor} {opening : Option Text} {rest' : Text}
    (start : readDocumentStart cur = (opening, afterStart))
    (marker : cur.token.atDocumentStart = true) (head : rest'.head? = afterStart.rest.head?) :
    Ahead cur.commentMayOpen cur.rest
      ((if opening.isSome then opening.getD [] ++ ['-', '-', '-'] else opening.getD []) ++
      rest') := by
  obtain ⟨-, rfl, rfl⟩ | ⟨noMarker, -, -⟩ := readDocumentStart_eq.mp start
  · have opens := (Bool.and_eq_true_iff.mp marker).2
    have taken : cur.token.here.Takes ['-', '-', '-'] _ := .past (opensDocument_eq opens)
    have closed := blankOrEnd_of_opensDocument opens
    rw [Option.isSome_some, if_pos rfl, Option.getD_some, List.append_assoc]
    exact Cursor.ahead_of_word rfl taken ⟨'-', by simp, by decide⟩ closed
      ((blankOrEnd_of_head head).trans closed)
  · rw [marker] at noMarker
    contradiction

theorem ReadsBody.of_atEnd {cur last : Cursor} {u : Value} (h : ReadsBody cur u last)
    (ends : cur.token.atEnd = true) : (∃ s, u = .scalar s) ∧ last = cur := by
  cases h with
  | absent => exact ⟨⟨_, rfl⟩, rfl⟩
  | value more =>
    rw [Cursor.Resumes.atEnd_of_endsDocument more] at ends
    contradiction

/-- At the end of the text there is only an empty document. -/
theorem ReadsDocument.of_atEnd {cur last : Cursor} {d : Document} (h : ReadsDocument cur d last)
    (ends : cur.token.atEnd = true) : (∃ s, d.body = .scalar s) ∧ last.token.atEnd = true := by
  have nothing := Token.rest_eq_nil ends
  have noStart : cur.token.atDocumentStart = false := by
    rw [Token.atDocumentStart, nothing]
    simp [opensDocument]
  have noEnd : cur.token.atDocumentEnd = false := by
    rw [Token.atDocumentEnd, nothing]
    simp [closesDocument]
  cases h with
  | document start lead explicitStart bodyRead ending =>
    obtain ⟨marker, -, -⟩ | ⟨-, -, rfl⟩ := readDocumentStart_eq.mp start
    · rw [noStart] at marker
      contradiction
    · obtain ⟨isScalar, rfl⟩ := bodyRead.of_atEnd ends
      obtain ⟨-, ⟨-, marker, -⟩ | ⟨-, -, -, rfl⟩⟩ := readDocumentEnd_eq_ok.mp ending
      · rw [noEnd] at marker
        contradiction
      · rw [Cursor.token_token]
        exact ⟨isScalar, ends⟩

/-- A document with a filled body is read from the edited text. -/
theorem ReadsDocument.filled {cur cur' last : Cursor} {d : Document} {body : Value} (id : NodeId)
    (fills : new.Fills) (inFlow : style ≠ .block) (quoted : key.style ≠ .plain)
    (h : ReadsDocument cur d last)
    (edit : Value.Filled style key new d.body body) (aligned : cur.Aligned cur')
    (text' : cur'.rest = d.startText ++ (body.print ++ (d.endText ++ last.rest))) :
    ∃ last', ReadsDocument cur' { d with id, body } last' ∧ last'.rest = last.rest ∧
      (last.Aligned last' ∨ d.explicitEnd = false ∧ last.rest = []) := by
  cases h with
  | @document afterStart afterBody _ opening _ start lead explicitStart bodyRead ending =>
    have behind : afterBody.rest = d.endText ++ last.rest := (readDocumentEnd_takes ending).rest_eq
    rw [startText_of_readDocumentStart lead explicitStart, ← behind] at text'
    obtain ⟨afterStart', startTaken, atBody⟩ := Cursor.exists_takes text'
    have bodyAligned := aligned.takes (readDocumentStart_takes start) startTaken
    obtain ⟨afterBody', bodyRead', rejoins, more'⟩ := bodyRead.filled fills inFlow quoted edit
      bodyAligned atBody (endsDocument_of_readDocumentEnd ending)
    obtain ⟨last', endTaken, behind'⟩ := Cursor.exists_takes (rejoins.rest.trans behind)
    obtain ⟨ending', place⟩ := readDocumentEnd_resumes ending rejoins.resumes endTaken
    have start' : readDocumentStart cur' = (opening, afterStart') := by
      cases marker : cur.token.atDocumentStart with
      | true =>
        have resumes : cur.Resumes cur' :=
          ⟨aligned.meets, text' ▸ Ahead.of_marker start marker (bodyRead.head_filled edit _)⟩
        exact (readDocumentStart_resumes start aligned resumes startTaken).1
      | false =>
        obtain ⟨marked, -, -⟩ | ⟨-, rfl, rfl⟩ := readDocumentStart_eq.mp start
        · rw [marker] at marked
          contradiction
        · obtain rfl := startTaken.unique (.refl cur')
          have noMarker := (Bool.or_eq_false_iff.mp (Bool.or_eq_false_iff.mp more').2).1
          exact readDocumentStart_eq.mpr (.inr ⟨noMarker, rfl, rfl⟩)
    exact ⟨last', .document start' lead explicitStart bodyRead' ending', behind', place⟩

/-- The parts of a document. A start marker is seen if the blank behind it stays. -/
theorem ReadsDocument.parts {cur last : Cursor} {d : Document} (h : ReadsDocument cur d last) :
    ∃ afterStart afterBody, cur.rest = d.startText ++ afterStart.rest ∧
      ReadsBody afterStart d.body afterBody ∧ afterBody.rest = d.endText ++ last.rest ∧
      (cur.token.atDocumentStart = true → ∀ rest', rest'.head? = afterStart.rest.head? →
        Ahead cur.commentMayOpen cur.rest (d.startText ++ rest')) := by
  cases h with
  | @document afterStart afterBody _ opening _ start lead explicitStart bodyRead ending =>
    rw [startText_of_readDocumentStart lead explicitStart]
    exact ⟨afterStart, afterBody, (readDocumentStart_takes start).rest_eq, bodyRead,
      (readDocumentEnd_takes ending).rest_eq, fun marker _ head => .of_marker start marker head⟩

/-- Behind the start of the first document the text begins with the character it began with. -/
theorem ReadsDocuments.start_filled {ds ds' : List Document} {trailer : Text}
    (edit : DocumentsFilled style key new ds ds') {cur : Cursor}
    (h : ReadsDocuments cur ds trailer) :
    ∃ start behind rest', cur.rest = start ++ behind ∧
      documentsPrint ds' ++ trailer = start ++ rest' ∧ rest'.head? = behind.head? ∧
      (cur.token.atDocumentStart = true → Ahead cur.commentMayOpen cur.rest (start ++ rest')) := by
  induction edit generalizing cur with
  | here edit =>
    obtain ⟨mid, documentRead, rest, -⟩ := h.first
    obtain ⟨afterStart, afterBody, whole, bodyRead, behind, marked⟩ := documentRead.parts
    have head := bodyRead.head_filled edit
    rw [documentsPrint_cons, Document.print, List.append_assoc, List.append_assoc]
    exact ⟨_, _, _, whole, rfl, head _, fun marker => marked marker _ (head _)⟩
  | @later d ds ds' edit ih =>
    obtain ⟨mid, documentRead, rest, ⟨rfl, -⟩ | ⟨-, others⟩⟩ := h.first
    · cases edit
    · obtain ⟨afterStart, afterBody, whole, bodyRead, behind, marked⟩ := documentRead.parts
      obtain ⟨start, next, rest', midRest, print, head, -⟩ := ih others
      have head' : (d.body.print ++ (d.endText ++ (documentsPrint ds' ++ trailer))).head? =
          afterStart.rest.head? := by
        rw [bodyRead.takes.rest_eq, behind, midRest, print]
        exact head_append_of_head (head_append_of_head (head_append_of_head head))
      rw [documentsPrint_cons, Document.print, List.append_assoc, List.append_assoc]
      exact ⟨_, _, _, whole, rfl, head', fun marker => marked marker _ head'⟩

theorem ReadsDocuments.head_filled {ds ds' : List Document} {trailer : Text}
    (edit : DocumentsFilled style key new ds ds') {cur : Cursor}
    (h : ReadsDocuments cur ds trailer) :
    (documentsPrint ds' ++ trailer).head? = cur.rest.head? := by
  obtain ⟨start, behind, rest', whole, print, head, -⟩ := h.start_filled edit
  rw [whole, print]
  exact head_append_of_head head

/-- The end of a document in front of a filled one looks alike: there is a marker. -/
theorem ReadsDocuments.endsAhead_filled {ds ds' : List Document} {trailer : Text}
    (edit : DocumentsFilled style key new ds ds') {mid : Cursor}
    (h : ReadsDocuments mid ds trailer) (goesOn : mid.token.atEnd = false) (d : Document) :
    d.EndsAhead mid (documentsPrint ds' ++ trailer) := by
  intro cur ending
  obtain ⟨start, behind, rest', whole, print, head, marked⟩ := h.start_filled edit
  obtain ⟨tail, ⟨marked', marker, position⟩ | ⟨unmarked, noMarker, ends, position⟩⟩ :=
    readDocumentEnd_eq_ok.mp ending
  · have closes := (Bool.and_eq_true_iff.mp marker).2
    have taken : cur.token.here.Takes ['.', '.', '.'] mid := by
      rw [position]
      exact .past (closesDocument_eq closes)
    have closed : blankOrEnd mid.rest = true := by
      rw [position]
      exact blankOrEnd_of_closesDocument closes
    have closed' := (blankOrEnd_of_head (h.head_filled edit)).trans closed
    rw [Document.endText, marked', if_pos rfl, tail, List.append_assoc]
    exact Cursor.ahead_of_word rfl taken ⟨'.', by simp, by decide⟩ closed closed'
  · have atMid : mid.token = ⟨[], mid⟩ := by
      rw [position, Cursor.token_token]
    have marker : mid.token.atDocumentStart = true := by
      rw [atMid] at goesOn ⊢
      subst position
      have notEnd : cur.token.atEnd = false := goesOn
      have marker : cur.token.atDocumentStart = true := by
        simpa [Token.endsDocument, Token.atMarker, notEnd, noMarker] using ends
      exact marker
    rw [Document.endText, unmarked, if_neg Bool.false_ne_true, tail, print]
    have ahead := marked marker
    rw [position] at ahead
    exact ahead.behindLead

theorem Value.Filled.ne_scalar {u u' : Value} (h : Value.Filled style key new u u') (s : Scalar) :
    u' ≠ .scalar s := by
  rintro rfl
  cases h

/-- In front of a filled document the text goes on. -/
theorem ReadsDocuments.goesOn_filled {ds ds' : List Document} {trailer : Text}
    (edit : DocumentsFilled style key new ds ds') {cur : Cursor}
    (h : ReadsDocuments cur ds' trailer) : cur.token.atEnd = false := by
  refine eq_false_of_ne_true fun ends => ?_
  cases edit with
  | here edit =>
    obtain ⟨mid, documentRead, -⟩ := h.first
    obtain ⟨⟨s, isScalar⟩, -⟩ := documentRead.of_atEnd ends
    exact edit.ne_scalar s isScalar
  | later edit =>
    obtain ⟨mid, documentRead, -, ⟨rfl, -⟩ | ⟨goesOn, -⟩⟩ := h.first
    · cases edit
    · rw [(documentRead.of_atEnd ends).2] at goesOn
      contradiction

/-- The documents are read from the edited text. -/
theorem ReadsDocuments.filled {ds ds' : List Document} {trailer : Text}
    (fills : new.Fills) (inFlow : style ≠ .block) (quoted : key.style ≠ .plain)
    (edit : DocumentsFilled style key new ds ds')
    {cur cur' : Cursor} (h : ReadsDocuments cur ds trailer) (aligned : cur.Aligned cur')
    (text' : cur'.rest = documentsPrint ds' ++ trailer) : ReadsDocuments cur' ds' trailer := by
  induction edit generalizing cur cur' with
  | @here d id body ds edit =>
    obtain ⟨mid, documentRead, rest, next⟩ := h.first
    rw [documentsPrint_cons, ← rest, Document.print, List.append_assoc, List.append_assoc] at text'
    obtain ⟨mid', documentRead', rest', place⟩ :=
      documentRead.filled id fills inFlow quoted edit aligned text'
    exact documentRead'.before place rest' rfl next
  | @later d ds ds' edit ih =>
    obtain ⟨mid, documentRead, rest, ⟨rfl, -⟩ | ⟨goesOn, others⟩⟩ := h.first
    · cases edit
    · rw [documentsPrint_cons] at text'
      obtain ⟨mid', taken', rest'⟩ := Cursor.exists_takes text'
      have ends := others.endsAhead_filled edit goesOn d
      rw [← rest'] at ends
      obtain ⟨documentRead', place | ⟨-, nothing⟩⟩ :=
        documentRead.edited fills.text.toPlainText.replaces (.refl d) aligned taken' ends
      · have others' := ih others place rest'
        exact .more documentRead' (others'.goesOn_filled edit) others'
      · rw [Token.atEnd, Cursor.token, nothing] at goesOn
        contradiction

/-- A stream with a value filled in is read from what it prints as. -/
theorem ReadsStream.filled {source : Text} {s s' : Stream} (fills : new.Fills)
    (inFlow : style ≠ .block) (quoted : key.style ≠ .plain) (h : ReadsStream source s)
    (trailer : s'.trailer = s.trailer)
    (edit : DocumentsFilled style key new s.documents s'.documents) : ReadsStream s'.print s' := by
  have print : s'.print = documentsPrint s'.documents ++ s.trailer := by
    rw [s'.print_eq, documentsPrint_eq, trailer]
  rw [ReadsStream, trailer]
  exact ReadsDocuments.filled fills inFlow quoted edit h ⟨rfl, rfl⟩ print

end ConfigTree.Yaml
