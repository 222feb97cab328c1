import ConfigTree.Proofs.Yaml.Rewriting

/-!
# Reading streams after an edit

A document with an edited body is read from the edited text as the edited document. The documents in
front of it see the same text ahead, and those behind it begin at the same place.
-/

namespace ConfigTree.Yaml

variable {old new : Scalar} {behind : Text}

/-- What stands in front of the body. -/
def Document.startText (d : Document) : Text :=
  if d.explicitStart then d.lead ++ ['-', '-', '-'] else d.lead

/-- What stands behind the body. -/
def Document.endText (d : Document) : Text :=
  if d.explicitEnd then d.tail ++ ['.', '.', '.'] else d.tail

def Document.print (d : Document) : Text := d.startText ++ (d.body.print ++ d.endText)

def documentsPrint (ds : List Document) : Text := ds.flatMap Document.print

/-- The second document is the first with an edited body. -/
structure Document.Edits (old new : Scalar) (behind : Text) (d d' : Document) : Prop where
  lead : d'.lead = d.lead
  explicitStart : d'.explicitStart = d.explicitStart
  body : Value.Edits old new (d.endText ++ behind) d.body d'.body
  tail : d'.tail = d.tail
  explicitEnd : d'.explicitEnd = d.explicitEnd

theorem Document.Edits.refl (d : Document) : d.Edits old new behind d :=
  ⟨rfl, rfl, .same d.body, rfl, rfl⟩

theorem Document.Edits.startText_eq {d d' : Document} (h : d.Edits old new behind d') :
    d'.startText = d.startText := by
  rw [Document.startText, h.explicitStart, h.lead, Document.startText]

theorem Document.Edits.endText_eq {d d' : Document} (h : d.Edits old new behind d') :
    d'.endText = d.endText := by
  rw [Document.endText, h.explicitEnd, h.tail, Document.endText]

/-- What comes in front of texts that look alike, if there is more to it than blanks
and comments. -/
theorem Ahead.of_takes {cur mid : Cursor} {t rest' : Text} (taken : cur.Takes t mid)
    (inside : mid.rest.length < cur.token.here.rest.length)
    (h : Ahead mid.commentMayOpen mid.rest rest') :
    Ahead cur.commentMayOpen cur.rest (t ++ rest') := by
  obtain ⟨significant, rfl, nonempty, starts⟩ := taken.begins inside
  have here := taken.behindLead.rest_eq
  have found : Yaml.trivia cur.commentMayOpen false cur.rest =
      (cur.token.lead, cur.token.here.rest) := rfl
  rw [taken.rest_eq] at found ⊢
  generalize mid.rest = ahead at *
  cases h with
  | same => exact .same _
  | @word lead word rest rest' token solid closed closed' =>
    have solid' : ∃ c ∈ significant ++ (lead ++ word), isWhiteSpace c = false := by
      obtain ⟨c, inside, solid⟩ := solid
      exact ⟨c, List.mem_append_right _ (List.mem_append_right _ inside), solid⟩
    rw [here] at found
    have ahead : Ahead cur.commentMayOpen
        (cur.token.lead ++ ((significant ++ (lead ++ word)) ++ rest))
        (cur.token.lead ++ ((significant ++ (lead ++ word)) ++ rest')) :=
      .word (by simpa using found) solid' closed closed'
    simpa using ahead

/-- What comes in front of a token that looks alike. -/
theorem Ahead.behindLead {cur : Cursor} {rest' : Text}
    (h : Ahead cur.token.here.commentMayOpen cur.token.here.rest rest') :
    Ahead cur.commentMayOpen cur.rest (cur.token.lead ++ rest') := by
  have found : Yaml.trivia cur.commentMayOpen false cur.rest =
      (cur.token.lead, cur.token.here.rest) := rfl
  have starts : Yaml.trivia cur.token.here.commentMayOpen false cur.token.here.rest =
      ([], cur.token.here.rest) := trivia_of_rest cur.commentMayOpen false cur.rest
  rw [← cur.lead_append_token] at found ⊢
  generalize cur.token.here.rest = ahead at *
  cases h with
  | same => exact .same _
  | @word lead word rest rest' token solid closed closed' =>
    obtain rfl : lead = [] := congrArg Prod.fst (token.symm.trans starts)
    show Ahead _ (cur.token.lead ++ (word ++ rest)) (cur.token.lead ++ (word ++ rest'))
    exact .word found solid closed closed'

theorem Value.Edits.ahead {floor : Nat} {cur last : Cursor} {v v' : Value} {rest' : Text}
    (replaces : Replaces old new) (h : ReadsValue floor cur v last)
    (edit : Value.Edits old new behind v v')
    (ahead : Ahead last.commentMayOpen last.rest rest') :
    Ahead cur.commentMayOpen cur.rest (v'.print ++ rest') := by
  cases edit with
  | same => exact ahead.of_takes h.takes h.length_lt
  | mapping entries =>
    cases h with
    | mapping notItem opens entriesRead => exact entriesRead.ahead replaces entries ahead.head
    | plain notItem notEntry valueRead => cases valueRead with | flow _ flowRead => cases flowRead
  | sequence items =>
    cases h with
    | sequence opens itemsRead => exact itemsRead.ahead replaces items ahead.head
    | plain notItem notEntry valueRead => cases valueRead with | flow _ flowRead => cases flowRead

theorem ReadsBody.ahead {cur last : Cursor} {v v' : Value} {rest' : Text}
    (replaces : Replaces old new) (h : ReadsBody cur v last)
    (edit : Value.Edits old new behind v v') (ahead : Ahead last.commentMayOpen last.rest rest') :
    Ahead cur.commentMayOpen cur.rest (v'.print ++ rest') := by
  cases h with
  | absent empty ends =>
    cases edit
    rw [print_of_empty empty]
    exact ahead
  | value more valueRead => exact edit.ahead replaces valueRead ahead

/-- The body of a document is read again in the edited text. -/
theorem ReadsBody.edited {cur cur' last last' : Cursor} {v v' : Value}
    (replaces : Replaces old new) (h : ReadsBody cur v last)
    (edit : Value.Edits old new last.rest v v') (aligned : cur.Aligned cur')
    (taken' : cur'.Takes v'.print last') (ahead : Ahead last.commentMayOpen last.rest last'.rest) :
    ReadsBody cur' v' last' ∧ last.Meets last' := by
  have resumes : cur.Resumes cur' := by
    refine ⟨aligned.meets, ?_⟩
    rw [taken'.rest_eq]
    exact h.ahead replaces edit ahead
  cases h with
  | absent empty ends =>
    cases edit
    rw [print_of_empty empty] at taken'
    obtain rfl := taken'.unique (.refl cur')
    exact ⟨.absent empty (resumes.endsDocument.trans ends), aligned.meets⟩
  | value more valueRead =>
    have token := resumes.aligned (Cursor.Resumes.atEnd_of_endsDocument more)
    obtain ⟨valueRead', meets⟩ :=
      valueRead.edited replaces (.inside edit) (.inl edit) token taken' ahead
    exact ⟨.value (resumes.endsDocument.trans more) valueRead', meets⟩

/-- What is ahead of the start of a document. -/
theorem Ahead.of_start {cur afterStart : Cursor} {opening : Option Text} {rest' : Text}
    (start : readDocumentStart cur = (opening, afterStart))
    (ahead : Ahead afterStart.commentMayOpen afterStart.rest rest') :
    Ahead cur.commentMayOpen cur.rest
      ((if opening.isSome then opening.getD [] ++ ['-', '-', '-'] else opening.getD []) ++
      rest') := by
  have taken := readDocumentStart_takes start
  rcases readDocumentStart_eq.mp start with ⟨marker, rfl, rfl⟩ | ⟨-, rfl, rfl⟩
  · refine ahead.of_takes taken ?_
    rw [opensDocument_eq (Bool.and_eq_true_iff.mp marker).2]
    simp
    omega
  · exact ahead

/-- What is ahead of the end of a document. -/
theorem Ahead.of_end {cur last : Cursor} {tail rest' : Text} {marked : Bool}
    (ending : readDocumentEnd cur = .ok ((tail, marked), last))
    (ahead : Ahead last.commentMayOpen last.rest rest') :
    Ahead cur.commentMayOpen cur.rest
      ((if marked then tail ++ ['.', '.', '.'] else tail) ++ rest') := by
  have taken := readDocumentEnd_takes ending
  obtain ⟨rfl, ⟨rfl, marker, rfl⟩ | ⟨rfl, -, -, rfl⟩⟩ := readDocumentEnd_eq_ok.mp ending
  · refine ahead.of_takes taken ?_
    rw [closesDocument_eq (Bool.and_eq_true_iff.mp marker).2]
    simp
    omega
  · exact ahead.behindLead

/-- The start of a document in an edited text. -/
theorem readDocumentStart_resumes {cur cur' afterStart afterStart' : Cursor} {opening : Option Text}
    (start : readDocumentStart cur = (opening, afterStart)) (aligned : cur.Aligned cur')
    (resumes : cur.Resumes cur')
    (taken' : cur'.Takes
      (if opening.isSome then opening.getD [] ++ ['-', '-', '-'] else opening.getD [])
      afterStart') :
    readDocumentStart cur' = (opening, afterStart') ∧ afterStart.Aligned afterStart' := by
  have taken := readDocumentStart_takes start
  refine ⟨?_, aligned.takes taken taken'⟩
  rcases found : readDocumentStart cur' with ⟨opening', last'⟩
  have found' := readDocumentStart_takes found
  obtain rfl : opening' = opening := by
    rcases readDocumentStart_eq.mp start with ⟨marker, rfl, -⟩ | ⟨noMarker, rfl, -⟩
    · rcases readDocumentStart_eq.mp found with ⟨-, rfl, -⟩ | ⟨noMarker, -, -⟩
      · rw [resumes.lead]
      · rw [resumes.atDocumentStart, marker] at noMarker
        contradiction
    · rcases readDocumentStart_eq.mp found with ⟨marker, -, -⟩ | ⟨-, rfl, -⟩
      · rw [resumes.atDocumentStart, noMarker] at marker
        contradiction
      · rfl
  rw [found'.unique taken']

/-- The end of a document in an edited text. Another document can only follow at the same place. -/
theorem readDocumentEnd_resumes {cur cur' last last' : Cursor} {tail : Text} {marked : Bool}
    (ending : readDocumentEnd cur = .ok ((tail, marked), last)) (resumes : cur.Resumes cur')
    (taken' : cur'.Takes (if marked then tail ++ ['.', '.', '.'] else tail) last') :
    readDocumentEnd cur' = .ok ((tail, marked), last') ∧
      (last.Aligned last' ∨ marked = false ∧ last.rest = []) := by
  obtain ⟨rfl, ⟨rfl, marker, rfl⟩ | ⟨rfl, noMarker, ends, rfl⟩⟩ := readDocumentEnd_eq_ok.mp ending
  · have marker' := resumes.atDocumentEnd.trans marker
    have closing := closesDocument_eq (Bool.and_eq_true_iff.mp marker).2
    have closing' := closesDocument_eq (Bool.and_eq_true_iff.mp marker').2
    have more : cur.token.atEnd = false := by
      rw [Token.atEnd, closing]
      rfl
    rw [if_pos rfl, ← resumes.lead] at taken'
    obtain rfl := taken'.unique (cur'.takes_token.trans (.past closing'))
    refine ⟨readDocumentEnd_eq_ok.mpr ⟨resumes.lead.symm, .inl ⟨rfl, marker', rfl⟩⟩, .inl ?_⟩
    exact (resumes.aligned more).here.past _ _ _
  · have noMarker' := resumes.atDocumentEnd.trans noMarker
    have ends' := resumes.endsDocument.trans ends
    rw [if_neg Bool.false_ne_true, ← resumes.lead] at taken'
    obtain rfl := taken'.unique cur'.takes_token
    refine ⟨readDocumentEnd_eq_ok.mpr ⟨resumes.lead.symm, .inr ⟨rfl, noMarker', ends', rfl⟩⟩, ?_⟩
    cases more : cur.token.atEnd with
    | false => exact .inl (resumes.aligned more).here
    | true => exact .inr ⟨rfl, Token.rest_eq_nil more⟩

/-- What stands behind a document lets its end look alike. -/
def Document.EndsAhead (d : Document) (last : Cursor) (rest' : Text) : Prop :=
  ∀ cur, readDocumentEnd cur = .ok ((d.tail, d.explicitEnd), last) →
    Ahead cur.commentMayOpen cur.rest (d.endText ++ rest')

theorem Ahead.documentEnd {d : Document} {last : Cursor} {rest' : Text}
    (h : Ahead last.commentMayOpen last.rest rest') : d.EndsAhead last rest' :=
  fun _ ending => h.of_end ending

theorem ReadsDocument.ahead {cur last : Cursor} {d d' : Document} {rest' : Text}
    (replaces : Replaces old new) (h : ReadsDocument cur d last) (edit : d.Edits old new behind d')
    (ends : d.EndsAhead last rest') : Ahead cur.commentMayOpen cur.rest (d'.print ++ rest') := by
  cases h with
  | document start lead explicitStart bodyRead ending =>
    rw [Document.print, edit.startText_eq, edit.endText_eq, Document.startText, lead,
      explicitStart, List.append_assoc, List.append_assoc]
    exact (bodyRead.ahead replaces edit.body (ends _ ending)).of_start start

/-- A document is read again in the edited text. -/
theorem ReadsDocument.edited {cur cur' last last' : Cursor} {d d' : Document}
    (replaces : Replaces old new) (h : ReadsDocument cur d last)
    (edit : d.Edits old new last.rest d') (aligned : cur.Aligned cur')
    (taken' : cur'.Takes d'.print last') (ends : d.EndsAhead last last'.rest) :
    ReadsDocument cur' d' last' ∧
      (last.Aligned last' ∨ d.explicitEnd = false ∧ last.rest = []) := by
  have resumes : cur.Resumes cur' := by
    refine ⟨aligned.meets, ?_⟩
    rw [taken'.rest_eq]
    exact h.ahead replaces edit ends
  cases h with
  | @document afterStart afterBody _ opening _ start lead explicitStart bodyRead ending =>
    have bodyEdit := edit.body
    rw [← show afterBody.rest = d.endText ++ last.rest from (readDocumentEnd_takes ending).rest_eq]
      at bodyEdit
    rw [Document.print, edit.startText_eq, edit.endText_eq, Document.startText, lead,
      explicitStart] at taken'
    obtain ⟨afterStart', startTaken, taken'⟩ := taken'.split
    obtain ⟨afterBody', bodyTaken, endTaken⟩ := taken'.split
    have bodyAhead : Ahead afterBody.commentMayOpen afterBody.rest afterBody'.rest := by
      rw [endTaken.rest_eq]
      exact ends _ ending
    obtain ⟨start', bodyAligned⟩ := readDocumentStart_resumes start aligned resumes startTaken
    obtain ⟨bodyRead', meets⟩ := bodyRead.edited replaces bodyEdit bodyAligned bodyTaken bodyAhead
    obtain ⟨ending', place⟩ := readDocumentEnd_resumes ending ⟨meets, bodyAhead⟩ endTaken
    rw [← edit.tail, ← edit.explicitEnd] at ending'
    rw [← edit.lead] at lead
    rw [← edit.explicitStart] at explicitStart
    exact ⟨.document start' lead explicitStart bodyRead' ending', place⟩

/-! ## Streams -/

/-- The second list of documents is the first with one of them edited. -/
inductive DocumentsEdits (old new : Scalar) (trailer : Text) :
    List Document → List Document → Prop where
  | here {d d' : Document} {ds : List Document}
      (edit : d.Edits old new (documentsPrint ds ++ trailer) d') :
      DocumentsEdits old new trailer (d :: ds) (d' :: ds)
  | later {d : Document} {ds ds' : List Document} (edit : DocumentsEdits old new trailer ds ds') :
      DocumentsEdits old new trailer (d :: ds) (d :: ds')

theorem documentsPrint_eq (ds : List Document) :
    documentsPrint ds = ds.flatMap fun d => Piece.print d.pieces :=
  congrArg ds.flatMap (funext fun d => d.print_pieces.symm)

theorem documentsPrint_cons (d : Document) (ds : List Document) (rest : Text) :
    documentsPrint (d :: ds) ++ rest = d.print ++ (documentsPrint ds ++ rest) := by
  rw [documentsPrint, List.flatMap_cons, List.append_assoc]
  rfl

/-- The first document, whatever comes after it. -/
theorem ReadsDocuments.first {cur : Cursor} {d : Document} {ds : List Document} {trailer : Text}
    (h : ReadsDocuments cur (d :: ds) trailer) :
    ∃ mid, ReadsDocument cur d mid ∧ mid.rest = documentsPrint ds ++ trailer ∧
      (ds = [] ∧ mid.token.atEnd = true ∧ trailer = (if d.explicitEnd then mid.token.lead else []) ∨
        mid.token.atEnd = false ∧ ReadsDocuments mid ds trailer) := by
  cases h with
  | @last _ mid _ documentRead ends =>
    refine ⟨mid, documentRead, ?_, .inl ⟨rfl, ends, rfl⟩⟩
    rw [mid.takes_token.rest_eq, Token.rest_eq_nil ends, List.append_nil]
    cases marked : d.explicitEnd with
    | true => rfl
    | false => exact documentRead.lead_eq_nil marked
  | more documentRead goesOn others =>
    refine ⟨_, documentRead, ?_, .inr ⟨goesOn, others⟩⟩
    rw [others.rest_eq, documentsPrint_eq]

theorem ReadsDocuments.ahead {ds ds' : List Document} {trailer : Text} (replaces : Replaces old new)
    (edit : DocumentsEdits old new trailer ds ds') {cur : Cursor}
    (h : ReadsDocuments cur ds trailer) :
    Ahead cur.commentMayOpen cur.rest (documentsPrint ds' ++ trailer) := by
  induction edit generalizing cur with
  | here edit =>
    obtain ⟨mid, documentRead, rest, -⟩ := h.first
    rw [documentsPrint_cons, ← rest]
    exact documentRead.ahead replaces edit (Ahead.same _).documentEnd
  | @later d _ _ edit ih =>
    obtain ⟨mid, documentRead, rest, ⟨rfl, -⟩ | ⟨-, others⟩⟩ := h.first
    · cases edit
    · have same : d.Edits old new mid.rest d := .refl d
      rw [documentsPrint_cons]
      exact documentRead.ahead replaces same (ih others).documentEnd

theorem Cursor.eq_of_aligned {cur cur' : Cursor} (h : cur.Aligned cur')
    (rest : cur'.rest = cur.rest) :
    cur' = cur := by
  obtain ⟨column, mayOpen, text⟩ := cur
  obtain ⟨rfl, rfl⟩ := h
  cases rest
  rfl

/-- The documents behind an edited one begin at the same place. -/
theorem ReadsDocument.before {cur' mid mid' : Cursor} {d d' : Document} {ds : List Document}
    {trailer : Text} (h : ReadsDocument cur' d' mid')
    (place : mid.Aligned mid' ∨ d.explicitEnd = false ∧ mid.rest = [])
    (rest' : mid'.rest = mid.rest) (explicitEnd : d'.explicitEnd = d.explicitEnd)
    (next : ds = [] ∧ mid.token.atEnd = true ∧
        trailer = (if d.explicitEnd then mid.token.lead else []) ∨
      mid.token.atEnd = false ∧ ReadsDocuments mid ds trailer) :
    ReadsDocuments cur' (d' :: ds) trailer := by
  rcases place with place | ⟨unmarked, ends⟩
  · have same := Cursor.eq_of_aligned place rest'
    rw [same] at h
    rcases next with ⟨rfl, ends, rfl⟩ | ⟨goesOn, others⟩
    · rw [← explicitEnd]
      exact .last h ends
    · exact .more h goesOn others
  · rcases next with ⟨rfl, -, rfl⟩ | ⟨goesOn, -⟩
    · have ends' : mid'.token.atEnd = true := by
        rw [Token.atEnd, Cursor.token, rest', ends]
        rfl
      have last := ReadsDocuments.last h ends'
      rw [explicitEnd, unmarked] at last
      rw [unmarked]
      exact last
    · rw [Token.atEnd, Cursor.token, ends] at goesOn
      contradiction

/-- The documents are read again in the edited text. -/
theorem ReadsDocuments.edited {ds ds' : List Document} {trailer : Text}
    (replaces : Replaces old new)
    (edit : DocumentsEdits old new trailer ds ds') {cur cur' : Cursor}
    (h : ReadsDocuments cur ds trailer) (aligned : cur.Aligned cur')
    (text' : cur'.rest = documentsPrint ds' ++ trailer) : ReadsDocuments cur' ds' trailer := by
  induction edit generalizing cur cur' with
  | @here d d' ds edit =>
    obtain ⟨mid, documentRead, rest, next⟩ := h.first
    rw [documentsPrint_cons, ← rest] at text'
    rw [← rest] at edit
    have taken' : cur'.Takes d'.print (cur'.past d'.print mid.rest) := .past text'
    obtain ⟨documentRead', place⟩ :=
      documentRead.edited replaces edit aligned taken' (Ahead.same _).documentEnd
    exact documentRead'.before place rfl edit.explicitEnd next
  | @later d ds ds' edit ih =>
    obtain ⟨mid, documentRead, rest, ⟨rfl, -⟩ | ⟨goesOn, others⟩⟩ := h.first
    · cases edit
    · have same : d.Edits old new mid.rest d := .refl d
      rw [documentsPrint_cons] at text'
      have taken' : cur'.Takes d.print (cur'.past d.print (documentsPrint ds' ++ trailer)) :=
        .past text'
      obtain ⟨documentRead', place | ⟨-, ends⟩⟩ :=
        documentRead.edited replaces same aligned taken' (others.ahead replaces edit).documentEnd
      · have others' := ih others place rfl
        refine .more documentRead' ?_ others'
        have resumes : mid.Resumes _ := ⟨place.meets, others.ahead replaces edit⟩
        exact resumes.atEnd.trans goesOn
      · rw [Token.atEnd, Cursor.token, ends] at goesOn
        contradiction

/-- The edited stream is read from what it prints as. -/
theorem ReadsStream.edited {text : Text} {s s' : Stream} (replaces : Replaces old new)
    (h : ReadsStream text s) (trailer : s'.trailer = s.trailer)
    (edit : DocumentsEdits old new s.trailer s.documents s'.documents) :
    ReadsStream s'.print s' := by
  have print : s'.print = documentsPrint s'.documents ++ s.trailer := by
    rw [s'.print_eq, documentsPrint_eq, trailer]
  rw [ReadsStream, trailer]
  exact ReadsDocuments.edited replaces edit h ⟨rfl, rfl⟩ print

end ConfigTree.Yaml
