import ConfigTree.Proofs.Yaml.Edits

/-!
# Reading after an edit

Whatever was read from a text is read from the edited text, with the new scalar in the place of the
old: what stands before the scalar cannot see it, what stands in its place is a plain scalar again,
and what stands behind begins at the same place of its line. The last holds if nothing else stands
on the line of the scalar, or if the two scalars take as many bytes.
-/

namespace ConfigTree.Yaml

variable {old new : Scalar}

theorem Cursor.Aligned.meets {cur cur' : Cursor} (h : cur.Aligned cur') : cur.Meets cur' :=
  ⟨h.mayOpen, .inl h.column⟩

/-- Where a comment may open, only the indicators of other styles keep a scalar from being a key. -/
theorem cannotOpenKey_eq_false {t : Text} (nonempty : t ≠ [])
    (notIndicator : ∀ c ∈ t.head?, c ∉ ['[', '\x7b', '|', '>'])
    (starts : trivia true false t = ([], t)) : cannotOpenKey t = false := by
  obtain ⟨c, cs, rfl⟩ := List.exists_cons_of_ne_nil nonempty
  have notIndicator := notIndicator c rfl
  have notComment := (trivia_cons_eq_nil.mp starts).2
  simp_all [cannotOpenKey]

theorem Replaces.unnumbered_eq (h : Replaces old new) :
    new.unnumbered = .fresh old.lead .plain new.text := by
  obtain ⟨id, lead, style, text, mark⟩ := new
  obtain ⟨-, -, -, rfl, rfl, rfl, -⟩ := h
  rfl

theorem Replaces.written_eq (h : Replaces old new) : old.written = old.text := by
  rw [Scalar.written, h.style]

theorem Replaces.newWritten_eq (h : Replaces old new) : new.written = new.text := by
  rw [Scalar.written, h.newStyle]

/-- A plain scalar that was read, and where it ends. -/
theorem scanPlain_of_readScalar {inFlow : Bool} {tok : Token} {s : Scalar} {last : Cursor}
    (h : readScalar inFlow tok = .ok (s.unnumbered, last)) (plain : s.style = .plain) :
    s.text ≠ [] ∧ tok.here.rest = s.text ++ last.rest ∧
      scanPlain inFlow (s.text ++ last.rest) = (s.text, last.rest) := by
  obtain ⟨taken, nonempty, -, -⟩ := readScalar_takes h
  obtain ⟨-, style, text, rest, scanned, -, fresh, rfl⟩ := readScalar_eq_ok.mp h
  have sameStyle : style = s.style := (congrArg Scalar.style fresh).symm
  have sameText : text = s.text := (congrArg Scalar.text fresh).symm
  have written : s.written = s.text := by rw [Scalar.written, plain]
  subst sameText
  rw [sameStyle, plain] at scanned
  have text := taken.rest_eq
  rw [written] at nonempty text
  rw [text] at scanned
  exact ⟨nonempty, text, (scanScalar_eq_plain.mp scanned).2⟩

/-- Where the old scalar ended, the new one meets it. -/
theorem Replaces.meets {here here' last last' : Cursor} (h : Replaces old new)
    (aligned : here.Aligned here') (taken : here.Takes old.text last)
    (taken' : here'.Takes new.text last')
    (scanned : scanPlain false (old.text ++ last.rest) = (old.text, last.rest))
    (keeps : KeepsColumn old new last.rest) : last.Meets last' := by
  obtain ⟨-, -, -, closed, noLineFeed⟩ := scanPlain_eq scanned h.nonempty
  obtain ⟨-, -, -, closed', noLineFeed'⟩ := scanPlain_eq h.plain.scanPlain_nil h.plain.nonempty
  have mayOpen : last.commentMayOpen = false := by
    rw [taken.2]
    exact closed _
  have mayOpen' : last'.commentMayOpen = false := by
    rw [taken'.2]
    exact closed' _
  refine ⟨mayOpen'.trans mayOpen.symm, ?_⟩
  rcases keeps with (newLine | ends) | sameSize
  · refine .inr (.inl (List.contains_iff_mem.mpr ?_))
    unfold Cursor.token
    rwa [mayOpen]
  · refine .inr (.inr (List.isEmpty_iff.mpr ?_))
    unfold Cursor.token
    rwa [mayOpen]
  · left
    rw [taken.2, taken'.2, Cursor.past, Cursor.past]
    dsimp only
    rw [columnAfter_eq_add noLineFeed, columnAfter_eq_add noLineFeed', aligned.column, sameSize]

/-- In the place of the old scalar the new one is read. -/
theorem ReadsPlainValue.replaced {floor : Nat} {cur cur' last last' : Cursor}
    (replaces : Replaces old new) (h : ReadsPlainValue floor cur (.scalar old) last)
    (token : cur.token.Aligned cur'.token) (taken' : cur'.Takes (Value.scalar new).print last')
    (mayOpen : cur.token.here.commentMayOpen = true) (keeps : KeepsColumn old new last.rest)
    (ahead : Ahead last.commentMayOpen last.rest last'.rest)
    (opens : OpensNothing cur.token.here.rest) :
    ReadsPlainValue floor cur' (.scalar new) last' ∧ last.Meets last' ∧
      OpensNothing cur'.token.here.rest := by
  obtain ⟨notIndicator, read⟩ := h.of_plain replaces.style
  obtain ⟨taken, -, lead, -⟩ := readScalar_takes read
  obtain ⟨-, -, scanned⟩ := scanPlain_of_readScalar read replaces.style
  have plain := replaces.plain
  rw [replaces.written_eq] at taken
  rw [replaces.print_eq, lead, ← token.lead] at taken'
  have here' := taken'.behindLead
  have stops := ahead.endsAlike.stops (scanPlain_eq scanned replaces.nonempty).2.1
  have head : cur'.token.here.rest.head? = new.text.head? := by
    rw [here'.rest_eq]
    exact (head_append_left plain.nonempty _).symm
  have read' : readScalar false cur'.token = .ok (new.unnumbered, last') := by
    have supported := plain.supported
    rw [← List.append_nil new.text] at supported
    refine readScalar_eq_ok.mpr ⟨?_, .plain, new.text, last'.rest, ?_, ?_, ?_, ?_⟩
    · rw [here'.rest_eq]
      exact unsupported_append_of plain.nonempty (fun _ => rfl) supported
    · rw [here'.rest_eq]
      exact plain.scanScalar_append stops
    · exact fun empty => plain.nonempty empty.2
    · rw [token.lead, ← lead, replaces.unnumbered_eq]
    · rw [show new.unnumbered.written = new.written from rfl, replaces.newWritten_eq]
      exact here'.2
  have notItem : opensItem cur'.token.here.rest = false := by
    have notItem := plain.notItem
    rw [← List.append_nil new.text] at notItem
    rw [here'.rest_eq]
    exact opensItem_append_of plain.nonempty (fun _ => rfl) notItem
  have notKey : keyFollows last'.rest = false := by
    rw [ahead.keyFollows]
    have more := ne_nil_of_shorter h.length_lt
    have starts : trivia true false cur.token.here.rest = ([], cur.token.here.rest) := by
      rw [← mayOpen]
      exact trivia_of_rest cur.commentMayOpen false cur.rest
    have canOpen := cannotOpenKey_eq_false more notIndicator starts
    exact (keyFollows_of_notEntry read opens.notEntry).resolve_left (by simp [canOpen])
  refine ⟨.scalar (head ▸ plain.notIndicator) read', ?_, notItem, ?_⟩
  · exact replaces.meets token.here taken here' scanned keeps
  · exact notEntry_of_readScalar read' (.inr notKey)

/-- An unedited value that opens no block collection is read again in front of a text that looks
like the one behind it. -/
theorem ReadsPlainValue.unedited {floor : Nat} {cur cur' last last' : Cursor} {v : Value}
    (h : ReadsPlainValue floor cur v last) (token : cur.token.Aligned cur'.token)
    (taken' : cur'.Takes v.print last') (ahead : Ahead last.commentMayOpen last.rest last'.rest)
    (opens : OpensNothing cur.token.here.rest) :
    ReadsPlainValue floor cur' v last' ∧ last.Meets last' ∧ OpensNothing cur'.token.here.rest := by
  obtain ⟨read', aligned, opens'⟩ := h.aligned token taken' ahead.stopsAlike opens
  exact ⟨read', aligned.meets, opens'⟩

theorem ReadsPlainValue.edited {floor : Nat} {cur cur' last last' : Cursor} {v v' : Value}
    (replaces : Replaces old new) (h : ReadsPlainValue floor cur v last)
    (edit : SlotEdits old new last.rest v v')
    (slot : Value.Edits old new last.rest v v' ∨ cur.token.here.commentMayOpen = true)
    (token : cur.token.Aligned cur'.token) (taken' : cur'.Takes v'.print last')
    (ahead : Ahead last.commentMayOpen last.rest last'.rest)
    (opens : OpensNothing cur.token.here.rest) :
    ReadsPlainValue floor cur' v' last' ∧ last.Meets last' ∧ OpensNothing cur'.token.here.rest := by
  rcases h.edit_cases edit with rfl | ⟨rfl, rfl, keeps⟩
  · exact h.unedited token taken' ahead opens
  · rcases slot with edit | mayOpen
    · cases edit
      exact h.unedited token taken' ahead opens
    · exact h.replaced replaces token taken' mayOpen keeps ahead opens

/-! ## Block collections -/

theorem opensEntry_of_readKey {tok : Token} {key : Scalar} {gap : Text} {last : Cursor}
    (h : readKey tok = .ok ((key, gap), last)) : opensEntry tok.here.rest = true := by
  obtain ⟨-, rest, scanned, -, -⟩ := readKey_eq_ok.mp h
  rw [opensEntry, scanned]
  rfl

theorem ReadsEntries.opensEntry {column : Nat} {cur last : Cursor} {es : List Entry}
    (h : ReadsEntries column cur es last) : opensEntry cur.token.here.rest = true := by
  obtain ⟨id, lead, here, key, gap, value, afterColon, mid, others, -, found, keyRead, -⟩ := h.first
  rw [found]
  exact opensEntry_of_readKey keyRead

theorem ReadsItems.opensItem {column : Nat} {cur last : Cursor} {is : List Item}
    (h : ReadsItems column cur is last) : opensItem cur.token.here.rest = true := by
  obtain ⟨id, lead, here, dashRest, value, mid, others, -, found, dash, closed, -⟩ := h.first
  rw [found, dash]
  exact closed

/-- Edited entries do not begin like an item if they did not. -/
theorem ReadsEntries.notItem_of_edits {column : Nat} {cur cur' last last' : Cursor}
    {es es' : List Entry} (h : ReadsEntries column cur es last)
    (edit : EntriesEdits old new behind es es') (token : cur.token.Aligned cur'.token)
    (taken' : cur'.Takes (entriesPrint es') last')
    (notItem : Yaml.opensItem cur.token.here.rest = false) :
    Yaml.opensItem cur'.token.here.rest = false := by
  obtain ⟨id, lead, here, key, gap, value, afterColon, mid, others, rfl, found, keyRead, -⟩ :=
    h.first
  obtain ⟨taken, -, keyLead, unmarked⟩ := readKey_takes keyRead
  cases edit with
  | cons edit others =>
    rw [entriesPrint_cons, Entry.print_mk unmarked keyLead, List.append_assoc,
      List.append_assoc] at taken'
    obtain ⟨here', found', -, taken'⟩ := token.split found taken'
    rw [found, taken.rest_eq] at notItem
    rw [found', taken'.rest_eq, List.append_assoc]
    exact opensItem_append_of (by simp) (fun _ => blankOrEnd_of_readKey keyRead) notItem

/-- A token further in, or on a dash, is no marker. -/
theorem endsDocument_eq_false {tok : Token} (more : tok.here.rest ≠ [])
    (inside : 0 < tok.column ∨ opensItem tok.here.rest = true) : tok.endsDocument = false := by
  have notEnd : tok.atEnd = false := by
    obtain ⟨c, cs, here⟩ := List.exists_cons_of_ne_nil more
    rw [Token.atEnd, here]
    rfl
  have notMarker : tok.atMarker = false := by
    unfold Token.atMarker Token.atDocumentStart Token.atDocumentEnd
    rcases inside with column | item
    · have : (tok.column == 0) = false := beq_false_of_ne (Nat.ne_of_gt column)
      rw [this]
      rfl
    · have word := opensItem_iff.mp item
      have notStart : opensDocument tok.here.rest = false :=
        eq_false_of_ne_true fun start => by simp [opensDocument_iff.mp start] at word
      have notEnd : closesDocument tok.here.rest = false :=
        eq_false_of_ne_true fun ends => by simp [closesDocument_iff.mp ends] at word
      rw [notStart, notEnd, Bool.and_false]
      rfl
  rw [Token.endsDocument, notEnd, notMarker]
  rfl

theorem le_columnAfter {t : Text} (h : '\n' ∉ t) (column : Nat) :
    column ≤ columnAfter column t := by
  rw [columnAfter_eq_add h]
  exact Nat.le_add_right _ _

theorem Cursor.column_le_token {cur : Cursor} (sameLine : cur.token.onNewLine = false) :
    cur.column ≤ cur.token.column := by
  show cur.column ≤ columnAfter cur.column cur.token.lead
  refine le_columnAfter ?_ cur.column
  intro newLine
  rw [Token.onNewLine, List.contains_iff_mem.mpr newLine] at sameLine
  contradiction

/-- Behind any other character than a line feed the line has begun. -/
theorem column_pos_of_takes {cur last : Cursor} {t : Text} {c : Char} (notLineFeed : c ≠ '\n')
    (h : cur.Takes (t ++ [c]) last) : 0 < last.column := by
  rw [h.2, Cursor.past]
  dsimp only
  rw [columnAfter_append, columnAfter, if_neg notLineFeed]
  exact Nat.lt_of_lt_of_le (Char.utf8Size_pos c) (Nat.le_add_left _ _)

theorem column_pos_of_readKey {tok : Token} {key : Scalar} {gap : Text} {last : Cursor}
    (h : readKey tok = .ok ((key.unnumbered, gap), last)) : 0 < last.column := by
  obtain ⟨taken, -, -, -⟩ := readKey_takes h
  exact column_pos_of_takes (by decide) taken

theorem column_pos_of_dash {here : Cursor} {rest : Text} (dash : here.rest = '-' :: rest) :
    0 < (here.past ['-'] rest).column := by
  have taken : here.Takes ([] ++ ['-']) (here.past ['-'] rest) := .past dash
  exact column_pos_of_takes (by decide) taken

/-- A token on the line of a cursor, or further in on a later one, is not at the margin. -/
theorem column_pos_of_inside {column : Nat} {cur : Cursor} (position : 0 < cur.column)
    (inside : cur.token.onNewLine = true → column < cur.token.column) : 0 < cur.token.column := by
  cases newLine : cur.token.onNewLine with
  | true => exact Nat.zero_lt_of_lt (inside newLine)
  | false => exact Nat.lt_of_lt_of_le position (Cursor.column_le_token newLine)

section Beginning

variable {cur cur' here last last' : Cursor} {id : NodeId} {lead : Text} {value : Value}

/-- An edited entry begins with the key that it had, which is read again if a blank still follows
its colon. -/
theorem Token.Aligned.atEntry {afterColon : Cursor} {gap : Text} {key : Scalar} {es : List Entry}
    (h : cur.token.Aligned cur'.token) (found : cur.token = ⟨lead, here⟩)
    (keyRead : readKey ⟨lead, here⟩ = .ok ((key.unnumbered, gap), afterColon))
    (taken' : cur'.Takes (entriesPrint (⟨id, lead, key, gap, value, none⟩ :: es)) last') :
    ∃ here' afterColon', cur'.token = ⟨lead, here'⟩ ∧ afterColon.Aligned afterColon' ∧
      (blankOrEnd afterColon'.rest = true →
        readKey ⟨lead, here'⟩ = .ok ((key.unnumbered, gap), afterColon')) ∧
      afterColon'.Takes (value.print ++ entriesPrint es) last' := by
  obtain ⟨taken, -, keyLead, unmarked⟩ := readKey_takes keyRead
  rw [entriesPrint_cons, Entry.print_mk unmarked keyLead, List.append_assoc,
    List.append_assoc] at taken'
  obtain ⟨here', found', aligned, taken'⟩ := h.split found taken'
  obtain ⟨afterColon', keyTaken, taken'⟩ := taken'.split
  rw [commaText, List.append_nil] at taken'
  exact ⟨here', afterColon', found', aligned.takes taken keyTaken,
    readKey_aligned _ keyRead keyTaken, taken'⟩

/-- An edited item begins with the dash that it had. -/
theorem Token.Aligned.atItem {rest : Text} {is : List Item} (h : cur.token.Aligned cur'.token)
    (found : cur.token = ⟨lead, here⟩)
    (taken' : cur'.Takes (itemsPrint (⟨id, lead, true, value, none⟩ :: is)) last') :
    ∃ here' rest', cur'.token = ⟨lead, here'⟩ ∧ here'.rest = '-' :: rest' ∧
      (here.past ['-'] rest).Aligned (here'.past ['-'] rest') ∧
      (here'.past ['-'] rest').Takes (value.print ++ itemsPrint is) last' := by
  rw [itemsPrint_cons, Item.print_dash, List.append_assoc, List.append_assoc] at taken'
  obtain ⟨here', found', aligned, taken'⟩ := h.split found taken'
  obtain ⟨rest', dash', taken'⟩ := taken'.cons
  exact ⟨here', rest', found', dash', aligned.past ['-'] _ rest', taken'⟩

/-- The blank behind a colon or a dash stays there. -/
theorem blankOrEnd_of_begins {t : Text} (closed : blankOrEnd cur.rest = true)
    (taken' : cur'.Takes t last') (head : last'.rest.head? = last.rest.head?)
    (begins : (t = [] ∧ last = cur) ∨ cur.token.Begins t ∧ cur.token.here.rest ≠ []) :
    blankOrEnd cur'.rest = true := by
  rw [taken'.rest_eq, blankOrEnd_of_head (head_of_begins closed head begins)]
  exact closed

end Beginning

section BehindSign

variable {column : Nat} {cur cur' last' : Cursor} {v : Value}

/-- A comment may open behind the blank of a sign, so that an edited value begins with the same
trivia. -/
theorem ReadsValue.token_of_edits {floor : Nat} {last : Cursor} {v' : Value}
    (replaces : Replaces old new) (h : ReadsValue floor cur v last)
    (edit : SlotEdits old new last.rest v v') (aligned : cur.Aligned cur')
    (taken' : cur'.Takes v'.print last') (closed : blankOrEnd cur.rest = true) :
    cur.token.here.commentMayOpen = true ∧ cur.token.Aligned cur'.token := by
  have more := ne_nil_of_shorter h.length_lt
  have mayOpen := (Cursor.mayOpen_of_blankOrEnd closed more).2
  have begins := h.begins replaces edit (.inr mayOpen)
  exact ⟨mayOpen, aligned.token_of_begins more begins taken'⟩

/-- A value on the line of its colon stays the value of the entry. -/
theorem ReadsPlainValue.inline (h : ReadsPlainValue (column + 1) cur' v last')
    (token : cur.token.Aligned cur'.token) (position : 0 < cur.column)
    (sameLine : cur.token.onNewLine = false) (opens : OpensNothing cur'.token.here.rest) :
    ReadsEntryValue column cur' v last' := by
  have inside : 0 < cur'.token.column := by
    rw [token.column]
    exact Nat.lt_of_lt_of_le position (Cursor.column_le_token sameLine)
  have more := endsDocument_eq_false (ne_nil_of_shorter h.length_lt) (.inl inside)
  exact .inline more (token.onNewLine.trans sameLine) opens.notItem opens.notEntry h

/-- A value further in on a line of its own stays the value of the entry. -/
theorem ReadsValue.nested (h : ReadsValue (column + 1) cur' v last')
    (token : cur.token.Aligned cur'.token) (newLine : cur.token.onNewLine = true)
    (inside : column < cur.token.column) : ReadsEntryValue column cur' v last' := by
  rw [← token.column] at inside
  have more := endsDocument_eq_false (ne_nil_of_shorter h.length_lt)
    (.inl (Nat.zero_lt_of_lt inside))
  exact .nested more (token.onNewLine.trans newLine) inside h

end BehindSign

mutual

/-- A value is read again in the edited text. -/
theorem ReadsValue.edited {floor : Nat} {cur cur' last last' : Cursor} {v v' : Value}
    (replaces : Replaces old new) (edit : SlotEdits old new last.rest v v')
    (slot : Value.Edits old new last.rest v v' ∨ cur.token.here.commentMayOpen = true)
    (token : cur.token.Aligned cur'.token) (taken' : cur'.Takes v'.print last')
    (ahead : Ahead last.commentMayOpen last.rest last'.rest) :
    ReadsValue floor cur v last → ReadsValue floor cur' v' last' ∧ last.Meets last'
  | .sequence opens itemsRead => by
    obtain ⟨id', is', rfl, items⟩ := edit.of_sequence
    obtain ⟨itemsRead', meets⟩ := itemsRead.edited replaces items token taken' ahead
    rw [← token.column] at itemsRead'
    exact ⟨.sequence itemsRead'.opensItem itemsRead', meets⟩
  | .mapping notItem opens entriesRead => by
    obtain ⟨id', es', rfl, entries⟩ := edit.of_mapping
    obtain ⟨entriesRead', meets⟩ := entriesRead.edited replaces entries token taken' ahead
    have notItem' := entriesRead.notItem_of_edits entries token taken' notItem
    rw [← token.column] at entriesRead'
    exact ⟨.mapping notItem' entriesRead'.opensEntry entriesRead', meets⟩
  | .plain notItem notEntry valueRead => by
    obtain ⟨valueRead', meets, notItem', notEntry'⟩ :=
      valueRead.edited replaces edit slot token taken' ahead ⟨notItem, notEntry⟩
    exact ⟨.plain notItem' notEntry' valueRead', meets⟩

theorem ReadsEntries.edited {column : Nat} {cur cur' last last' : Cursor} {es es' : List Entry}
    (replaces : Replaces old new) (edit : EntriesEdits old new last.rest es es')
    (token : cur.token.Aligned cur'.token) (taken' : cur'.Takes (entriesPrint es') last')
    (ahead : Ahead last.commentMayOpen last.rest last'.rest) :
    ReadsEntries column cur es last → ReadsEntries column cur' es' last' ∧ last.Meets last'
  | .last found keyRead valueRead next => by
    have closed := blankOrEnd_of_readKey keyRead
    have position := column_pos_of_readKey keyRead
    cases edit with
    | cons edit others =>
      cases others
      obtain ⟨here', afterColon', found', afterColon, keyRead', taken'⟩ :=
        token.atEntry found keyRead taken'
      rw [entriesPrint_nil, List.append_nil] at taken'
      obtain ⟨valueRead', meets⟩ :=
        valueRead.edited replaces edit afterColon taken' closed position ahead
      have closed' := blankOrEnd_of_begins closed taken' ahead.head
        (valueRead.begins replaces edit closed)
      have resumes : Cursor.Resumes _ last' := ⟨meets, ahead⟩
      exact ⟨.last found' (keyRead' closed') valueRead' (resumes.nextEntry_eq_none next), meets⟩
  | .more found keyRead valueRead next others => by
    have closed := blankOrEnd_of_readKey keyRead
    have position := column_pos_of_readKey keyRead
    cases edit with
    | cons edit othersEdit =>
      obtain ⟨here', afterColon', found', afterColon, keyRead', taken'⟩ :=
        token.atEntry found keyRead taken'
      obtain ⟨mid', valueTaken, othersTaken⟩ := taken'.split
      rw [← others.takes.rest_eq] at edit
      have midAhead := others.ahead replaces othersEdit ahead.head
      rw [← othersTaken.rest_eq] at midAhead
      obtain ⟨valueRead', midMeets⟩ := valueRead.edited replaces edit afterColon valueTaken closed
        position midAhead
      have resumes : Cursor.Resumes _ mid' := ⟨midMeets, midAhead⟩
      have more := Cursor.Resumes.atEnd_of_endsDocument (nextEntry_eq_some.mp next).2.1
      obtain ⟨others', meets⟩ :=
        others.edited replaces othersEdit (resumes.aligned more) othersTaken ahead
      have closed' := blankOrEnd_of_begins closed valueTaken midAhead.head
        (valueRead.begins replaces edit closed)
      exact ⟨.more found' (keyRead' closed') valueRead' (resumes.nextEntry_eq_some next) others',
        meets⟩

/-- The value of an entry is read again in the edited text. Behind the colon stands a blank, so that
the value begins at the same character. -/
theorem ReadsEntryValue.edited {column : Nat} {cur cur' last last' : Cursor} {v v' : Value}
    (replaces : Replaces old new) (edit : SlotEdits old new last.rest v v')
    (aligned : cur.Aligned cur') (taken' : cur'.Takes v'.print last')
    (closed : blankOrEnd cur.rest = true) (position : 0 < cur.column)
    (ahead : Ahead last.commentMayOpen last.rest last'.rest) :
    ReadsEntryValue column cur v last → ReadsEntryValue column cur' v' last' ∧ last.Meets last'
  | .absent empty next => by
    obtain rfl := edit.of_empty replaces empty
    rw [print_of_empty empty] at taken'
    obtain rfl := taken'.unique (.refl cur')
    have resumes : Cursor.Resumes _ last' := ⟨aligned.meets, ahead⟩
    refine ⟨.absent empty ?_, aligned.meets⟩
    rw [resumes.endsDocument, resumes.onNewLine, resumes.opensItem]
    cases more : Token.endsDocument _ with
    | true => exact .inl rfl
    | false =>
      rw [more] at next
      rwa [resumes.column_token more]
  | .inline more sameLine notItem notEntry valueRead => by
    have value : ReadsValue _ _ _ _ := .plain notItem notEntry valueRead
    obtain ⟨mayOpen, token⟩ := value.token_of_edits replaces edit aligned taken' closed
    obtain ⟨valueRead', meets, opens'⟩ :=
      valueRead.edited replaces edit (.inr mayOpen) token taken' ahead ⟨notItem, notEntry⟩
    exact ⟨valueRead'.inline token position sameLine opens', meets⟩
  | .nested more newLine inside valueRead => by
    obtain ⟨mayOpen, token⟩ := valueRead.token_of_edits replaces edit aligned taken' closed
    obtain ⟨valueRead', meets⟩ :=
      valueRead.edited replaces edit (.inr mayOpen) token taken' ahead
    exact ⟨valueRead'.nested token newLine inside, meets⟩
  | .sequence more newLine level opens itemsRead => by
    obtain ⟨id', is', rfl, items⟩ := edit.of_sequence
    have significant := ne_nil_of_shorter itemsRead.length_lt
    have token := aligned.token_of_begins significant (itemsRead.begins items) taken'
    obtain ⟨itemsRead', meets⟩ := itemsRead.edited replaces items token taken' ahead
    rw [← token.column] at level
    have opens' := itemsRead'.opensItem
    have more' := endsDocument_eq_false (ne_nil_of_shorter itemsRead'.length_lt) (.inr opens')
    exact ⟨.sequence more' (token.onNewLine.trans newLine) level opens' itemsRead', meets⟩

theorem ReadsItems.edited {column : Nat} {cur cur' last last' : Cursor} {is is' : List Item}
    (replaces : Replaces old new) (edit : ItemsEdits old new last.rest is is')
    (token : cur.token.Aligned cur'.token) (taken' : cur'.Takes (itemsPrint is') last')
    (ahead : Ahead last.commentMayOpen last.rest last'.rest) :
    ReadsItems column cur is last → ReadsItems column cur' is' last' ∧ last.Meets last'
  | .last found dash closed valueRead next => by
    have position := column_pos_of_dash dash
    cases edit with
    | cons edit others =>
      cases others
      obtain ⟨here', rest', found', dash', afterDash, taken'⟩ := token.atItem found taken'
      rw [itemsPrint_nil, List.append_nil] at taken'
      obtain ⟨valueRead', meets⟩ :=
        valueRead.edited replaces edit afterDash taken' closed position ahead
      have closed' := blankOrEnd_of_begins closed taken' ahead.head
        (valueRead.begins replaces edit closed)
      have resumes : Cursor.Resumes _ last' := ⟨meets, ahead⟩
      exact ⟨.last found' dash' closed' valueRead' (resumes.nextItem_eq_none next), meets⟩
  | .more found dash closed valueRead next others => by
    have position := column_pos_of_dash dash
    cases edit with
    | cons edit othersEdit =>
      obtain ⟨here', rest', found', dash', afterDash, taken'⟩ := token.atItem found taken'
      obtain ⟨mid', valueTaken, othersTaken⟩ := taken'.split
      rw [← others.takes.rest_eq] at edit
      have midAhead := others.ahead replaces othersEdit ahead.head
      rw [← othersTaken.rest_eq] at midAhead
      obtain ⟨valueRead', midMeets⟩ := valueRead.edited replaces edit afterDash valueTaken closed
        position midAhead
      have resumes : Cursor.Resumes _ mid' := ⟨midMeets, midAhead⟩
      have more := Cursor.Resumes.atEnd_of_endsDocument (nextItem_eq_some.mp next).2.1
      obtain ⟨others', meets⟩ :=
        others.edited replaces othersEdit (resumes.aligned more) othersTaken ahead
      have closed' := blankOrEnd_of_begins closed valueTaken midAhead.head
        (valueRead.begins replaces edit closed)
      exact ⟨.more found' dash' closed' valueRead' (resumes.nextItem_eq_some next) others', meets⟩

/-- The value of an item is read again in the edited text. -/
theorem ReadsItemValue.edited {column : Nat} {cur cur' last last' : Cursor} {v v' : Value}
    (replaces : Replaces old new) (edit : SlotEdits old new last.rest v v')
    (aligned : cur.Aligned cur') (taken' : cur'.Takes v'.print last')
    (closed : blankOrEnd cur.rest = true) (position : 0 < cur.column)
    (ahead : Ahead last.commentMayOpen last.rest last'.rest) :
    ReadsItemValue column cur v last → ReadsItemValue column cur' v' last' ∧ last.Meets last'
  | .absent empty next => by
    obtain rfl := edit.of_empty replaces empty
    rw [print_of_empty empty] at taken'
    obtain rfl := taken'.unique (.refl cur')
    have resumes : Cursor.Resumes _ last' := ⟨aligned.meets, ahead⟩
    refine ⟨.absent empty ?_, aligned.meets⟩
    rw [resumes.endsDocument, resumes.onNewLine]
    cases more : Token.endsDocument _ with
    | true => exact .inl rfl
    | false =>
      rw [more] at next
      rwa [resumes.column_token more]
  | .value more inside valueRead => by
    obtain ⟨mayOpen, token⟩ := valueRead.token_of_edits replaces edit aligned taken' closed
    obtain ⟨valueRead', meets⟩ :=
      valueRead.edited replaces edit (.inr mayOpen) token taken' ahead
    have column := column_pos_of_inside position inside
    rw [← token.column] at column inside
    rw [← token.onNewLine] at inside
    have more' := endsDocument_eq_false (ne_nil_of_shorter valueRead'.length_lt) (.inl column)
    exact ⟨.value more' inside valueRead', meets⟩

end

end ConfigTree.Yaml
