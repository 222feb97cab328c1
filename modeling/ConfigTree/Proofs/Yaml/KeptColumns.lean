import ConfigTree.Proofs.Yaml.Replacing

/-!
# What an edit must keep

If a stream that was edited at one place is read again from what it prints as, then what stands
behind the place is at the column where it was, or on another line. A sequence goes on at the column
of its dashes, and nothing else goes on behind a scalar on its line.
-/

namespace ConfigTree.Yaml

variable {old new : Scalar}

/-- The number of bytes that a scalar takes. -/
def Scalar.size (s : Scalar) : Nat := (Text.utf8 s.text).length

/-- What holds at the ends of a value and of the edited value: nothing stands between the scalar and
the end, where columns differ as the scalars do, or the edit keeps the column of what stands behind
the scalar. -/
def EndsAfter (old new : Scalar) (after : Text) (last last' : Cursor) : Prop :=
  (after = [] ∧ last.commentMayOpen = false ∧ 0 < last.column ∧
      last'.column + old.size = last.column + new.size) ∨
    KeepsColumn old new (after ++ last.rest)

theorem Cursor.Aligned.token_of_lead {cur cur' : Cursor} (h : cur.Aligned cur')
    (lead : cur'.token.lead = cur.token.lead) : cur.token.Aligned cur'.token := by
  refine ⟨lead, ?_⟩
  have here : cur'.token.here = cur'.past cur'.token.lead cur'.token.here.rest := rfl
  rw [here, lead]
  exact h.past cur.token.lead _ _

/-- At the end of the scalar itself. -/
theorem endsAfter_replaced {floor floor' : Nat} {cur cur' last last' : Cursor}
    (replaces : Replaces old new) (aligned : cur.Aligned cur')
    (h : ReadsPlainValue floor cur (.scalar old) last)
    (h' : ReadsPlainValue floor' cur' (.scalar new) last') : EndsAfter old new [] last last' := by
  have read := (h.of_plain replaces.style).2
  have read' := (h'.of_plain replaces.newStyle).2
  obtain ⟨taken, -, lead, -⟩ := readScalar_takes read
  obtain ⟨taken', -, lead', -⟩ := readScalar_takes read'
  obtain ⟨nonempty, -, scanned⟩ := scanPlain_of_readScalar read replaces.style
  obtain ⟨nonempty', -, scanned'⟩ := scanPlain_of_readScalar read' replaces.newStyle
  obtain ⟨-, -, -, closed, noLineFeed⟩ := scanPlain_eq scanned nonempty
  obtain ⟨-, -, -, -, noLineFeed'⟩ := scanPlain_eq scanned' nonempty'
  have token : cur.token.Aligned cur'.token :=
    aligned.token_of_lead (by rw [← lead, ← lead', replaces.lead])
  rw [replaces.written_eq] at taken
  rw [replaces.newWritten_eq] at taken'
  have column : last.column = cur.token.here.column + old.size := by
    rw [taken.2]
    exact columnAfter_eq_add noLineFeed _
  have column' : last'.column = cur.token.here.column + new.size := by
    rw [taken'.2, ← token.here.column]
    exact columnAfter_eq_add noLineFeed' _
  have positive : 0 < old.size := by
    obtain ⟨c, cs, text⟩ := List.exists_cons_of_ne_nil nonempty
    rw [Scalar.size, text, Text.utf8_cons, List.length_append, String.length_utf8EncodeChar]
    exact Nat.lt_of_lt_of_le (Char.utf8Size_pos c) (Nat.le_add_right _ _)
  refine .inl ⟨rfl, ?_, ?_, ?_⟩
  · rw [taken.2]
    exact closed _
  · omega
  · omega

/-- If the next token is on another line, or none, the edit keeps the column. -/
theorem keepsColumn_of_token {mid : Cursor} (mayOpen : mid.commentMayOpen = false)
    (h : mid.token.onNewLine = true ∨ mid.token.atEnd = true) : KeepsColumn old new mid.rest := by
  have token : mid.token.lead = (trivia false false mid.rest).1 ∧
      mid.token.here.rest = (trivia false false mid.rest).2 := by
    unfold Cursor.token
    rw [mayOpen]
    exact ⟨rfl, rfl⟩
  rcases h with newLine | ends
  · refine .inl (.inl ?_)
    rw [← token.1]
    exact List.contains_iff_mem.mp newLine
  · refine .inl (.inr ?_)
    rw [← token.2]
    exact Token.rest_eq_nil ends

theorem Cursor.column_token_eq {cur : Cursor} (sameLine : cur.token.onNewLine = false) :
    cur.token.column = cur.column + (Text.utf8 cur.token.lead).length := by
  show columnAfter cur.column cur.token.lead = _
  refine columnAfter_eq_add (fun newLine => ?_) cur.column
  rw [Token.onNewLine, List.contains_iff_mem.mpr newLine] at sameLine
  contradiction

/-- The dash of the next item is at its column on the line of the scalar only if the
columns agree. -/
theorem keepsColumn_of_item {mid mid' : Cursor} (mayOpen : mid.commentMayOpen = false)
    (columns : mid'.column + old.size = mid.column + new.size)
    (level : mid'.token.column = mid.token.column) (lead : mid'.token.lead = mid.token.lead) :
    KeepsColumn old new mid.rest := by
  cases newLine : mid.token.onNewLine with
  | true => exact keepsColumn_of_token mayOpen (.inl newLine)
  | false =>
    have newLine' : mid'.token.onNewLine = false := by rwa [Token.onNewLine, lead]
    rw [Cursor.column_token_eq newLine, Cursor.column_token_eq newLine', lead] at level
    exact .inr (by rw [Scalar.size, Scalar.size] at columns; omega)

/-- Two readings of the same items begin behind the same blanks and comments. -/
theorem ReadsItems.lead_eq {column column' : Nat} {cur cur' last last' : Cursor} {is : List Item}
    (h : ReadsItems column cur is last) (h' : ReadsItems column' cur' is last') :
    cur'.token.lead = cur.token.lead := by
  obtain ⟨_, _, _, _, _, _, _, rfl, found, -⟩ := h.first
  obtain ⟨_, _, _, _, _, _, _, same, found', -⟩ := h'.first
  cases same
  rw [found, found']

/-- The new scalar is not absent, and neither is an edited collection. -/
theorem SlotEditsAt.ne_empty {after : Text} {v v' : Value} (replaces : Replaces old new)
    (edit : SlotEditsAt old new after v v') {s : Scalar}
    (empty : s.unnumbered = .fresh [] .plain []) :
    v ≠ .scalar s ∧ v' ≠ .scalar s := by
  have noText : s.text = [] := congrArg Scalar.text empty
  constructor
  · rintro rfl
    cases edit with
    | inside edit => cases edit
    | replaced => exact replaces.nonempty noText
  · rintro rfl
    cases edit with
    | inside edit => cases edit
    | replaced => exact replaces.plain.nonempty noText

theorem SlotEditsAt.readsValue {after : Text} {v v' : Value} {cur cur' last last' : Cursor}
    (replaces : Replaces old new) (edit : SlotEditsAt old new after v v')
    (reads : (∃ s, v = .scalar s ∧ s.unnumbered = .fresh [] .plain [] ∧ last = cur) ∨
      ∃ floor, ReadsValue floor cur v last)
    (reads' : (∃ s, v' = .scalar s ∧ s.unnumbered = .fresh [] .plain [] ∧ last' = cur') ∨
      ∃ floor, ReadsValue floor cur' v' last') :
    (∃ floor, ReadsValue floor cur v last) ∧ ∃ floor, ReadsValue floor cur' v' last' := by
  constructor
  · exact reads.resolve_left fun ⟨_, scalar, empty, _⟩ => (edit.ne_empty replaces empty).1 scalar
  · exact reads'.resolve_left fun ⟨_, scalar, empty, _⟩ => (edit.ne_empty replaces empty).2 scalar

theorem Cursor.Aligned.afterColon {cur cur' here here' last last' : Cursor} {lead gap : Text}
    {key : Scalar} (h : cur.Aligned cur') (found : cur.token = ⟨lead, here⟩)
    (found' : cur'.token = ⟨lead, here'⟩)
    (read : readKey ⟨lead, here⟩ = .ok ((key.unnumbered, gap), last))
    (read' : readKey ⟨lead, here'⟩ = .ok ((key.unnumbered, gap), last')) : last.Aligned last' := by
  have token := h.token_of_lead (by rw [found, found'])
  rw [found, found'] at token
  exact token.here.takes (readKey_takes read).1 (readKey_takes read').1

theorem Cursor.Aligned.afterDash {cur cur' here here' : Cursor} {lead : Text}
    (h : cur.Aligned cur') (found : cur.token = ⟨lead, here⟩) (found' : cur'.token = ⟨lead, here'⟩)
    (rest rest' : Text) : (here.past ['-'] rest).Aligned (here'.past ['-'] rest') := by
  have token := h.token_of_lead (by rw [found, found'])
  rw [found, found'] at token
  exact token.here.past ['-'] rest rest'

mutual

theorem Value.EditsAt.endsAfter {floor floor' : Nat} {cur cur' last last' : Cursor} {after : Text}
    {v v' : Value} (replaces : Replaces old new) (aligned : cur.Aligned cur')
    (h : ReadsValue floor cur v last) (h' : ReadsValue floor' cur' v' last') :
    Value.EditsAt old new after v v' → EndsAfter old new after last last'
  | .mapping entries => by
    cases h with
    | plain _ _ valueRead => cases valueRead with | flow _ flowRead => cases flowRead
    | mapping notItem opens entriesRead =>
      cases h' with
      | plain _ _ valueRead => cases valueRead with | flow _ flowRead => cases flowRead
      | mapping notItem' opens' entriesRead' =>
        exact entries.endsAfter replaces aligned entriesRead entriesRead'
  | .sequence items => by
    cases h with
    | plain _ _ valueRead => cases valueRead with | flow _ flowRead => cases flowRead
    | sequence opens itemsRead =>
      cases h' with
      | plain _ _ valueRead => cases valueRead with | flow _ flowRead => cases flowRead
      | sequence opens' itemsRead' =>
        exact items.endsAfter replaces aligned rfl rfl itemsRead itemsRead'

theorem SlotEditsAt.endsAfter {floor floor' : Nat} {cur cur' last last' : Cursor} {after : Text}
    {v v' : Value} (replaces : Replaces old new) (aligned : cur.Aligned cur')
    (h : ReadsValue floor cur v last) (h' : ReadsValue floor' cur' v' last') :
    SlotEditsAt old new after v v' → EndsAfter old new after last last'
  | .inside edit => edit.endsAfter replaces aligned h h'
  | .replaced => by
    cases h with
    | plain notItem notEntry valueRead =>
      cases h' with
      | plain notItem' notEntry' valueRead' =>
        exact endsAfter_replaced replaces aligned valueRead valueRead'

theorem EntriesEditsAt.endsAfter {column column' : Nat} {cur cur' last last' : Cursor}
    {after : Text} {es es' : List Entry} (replaces : Replaces old new) (aligned : cur.Aligned cur')
    (h : ReadsEntries column cur es last) (h' : ReadsEntries column' cur' es' last') :
    EntriesEditsAt old new after es es' → EndsAfter old new after last last'
  | .here edit => by
    obtain ⟨_, _, _, _, _, _, _, mid, others, same, found, keyRead, valueRead, next⟩ := h.first
    obtain ⟨_, _, _, _, _, _, _, mid', others', same', found', keyRead', valueRead', next'⟩ :=
      h'.first
    cases same
    cases same'
    have afterColon := aligned.afterColon found found' keyRead keyRead'
    obtain ⟨⟨floor, read⟩, floor', read'⟩ :=
      edit.readsValue replaces valueRead.reads valueRead'.reads
    have ends := edit.endsAfter replaces afterColon read read'
    rcases next with ⟨rfl, rfl⟩ | ⟨next, others⟩
    · rcases next' with ⟨-, rfl⟩ | ⟨-, others'⟩
      · rwa [entriesPrint_nil, List.append_nil]
      · cases others'
    · right
      rw [List.append_assoc, ← others.takes.rest_eq]
      rcases ends with ⟨rfl, mayOpen, -⟩ | keeps
      · exact keepsColumn_of_token mayOpen (.inl (nextEntry_eq_some.mp next).2.2.1)
      · exact keeps
  | .later edit => by
    obtain ⟨_, _, _, _, _, _, _, mid, others, same, found, keyRead, valueRead, next⟩ := h.first
    obtain ⟨_, _, _, _, _, _, _, mid', others', same', found', keyRead', valueRead', next'⟩ :=
      h'.first
    cases same
    cases same'
    have afterColon := aligned.afterColon found found' keyRead keyRead'
    have afterValue := afterColon.takes valueRead.takes valueRead'.takes
    rcases next with ⟨rfl, -⟩ | ⟨-, others⟩
    · cases edit
    · rcases next' with ⟨rfl, -⟩ | ⟨-, others'⟩
      · cases edit
      · exact edit.endsAfter replaces afterValue others others'

theorem ItemsEditsAt.endsAfter {column column' : Nat} {cur cur' last last' : Cursor} {after : Text}
    {is is' : List Item} (replaces : Replaces old new) (aligned : cur.Aligned cur')
    (first : cur.token.column = column) (first' : cur'.token.column = column')
    (h : ReadsItems column cur is last) (h' : ReadsItems column' cur' is' last') :
    ItemsEditsAt old new after is is' → EndsAfter old new after last last'
  | .here edit => by
    obtain ⟨_, _, _, _, _, mid, others, same, found, dash, closed, valueRead, next⟩ := h.first
    obtain ⟨_, _, _, _, _, mid', others', same', found', dash', closed', valueRead', next'⟩ :=
      h'.first
    cases same
    cases same'
    have token := aligned.token_of_lead (by rw [found, found'])
    obtain ⟨⟨floor, read⟩, floor', read'⟩ :=
      edit.readsValue replaces valueRead.reads valueRead'.reads
    have ends := edit.endsAfter replaces (aligned.afterDash found found' _ _) read read'
    rcases next with ⟨rfl, rfl⟩ | ⟨next, others⟩
    · rcases next' with ⟨-, rfl⟩ | ⟨-, others'⟩
      · rwa [itemsPrint_nil, List.append_nil]
      · cases others'
    · right
      rw [List.append_assoc, ← others.takes.rest_eq]
      rcases ends with ⟨rfl, mayOpen, -, columns⟩ | keeps
      · rcases next' with ⟨rfl, -⟩ | ⟨next', others'⟩
        · cases others
        · have column := (nextItem_eq_some.mp next).2.2.1
          have column' := (nextItem_eq_some.mp next').2.2.1
          have level : mid'.token.column = mid.token.column := by
            rw [column, column', ← first, ← first']
            exact token.column
          exact keepsColumn_of_item mayOpen columns level (others.lead_eq others')
      · exact keeps
  | .later edit => by
    obtain ⟨_, _, _, _, _, mid, others, same, found, dash, closed, valueRead, next⟩ := h.first
    obtain ⟨_, _, _, _, _, mid', others', same', found', dash', closed', valueRead', next'⟩ :=
      h'.first
    cases same
    cases same'
    have afterValue :=
      (aligned.afterDash found found' _ _).takes valueRead.takes valueRead'.takes
    rcases next with ⟨rfl, -⟩ | ⟨next, others⟩
    · cases edit
    · rcases next' with ⟨rfl, -⟩ | ⟨next', others'⟩
      · cases edit
      · exact edit.endsAfter replaces afterValue (nextItem_eq_some.mp next).2.2.1
          (nextItem_eq_some.mp next').2.2.1 others others'

end

/-- Behind a body that ends with the scalar comes the end of the text or a marker on
another line. -/
theorem keepsColumn_of_documentEnd {mid last : Cursor} {tail : Text} {marked : Bool}
    (mayOpen : mid.commentMayOpen = false) (position : 0 < mid.column)
    (ending : readDocumentEnd mid = .ok ((tail, marked), last)) : KeepsColumn old new mid.rest := by
  refine keepsColumn_of_token mayOpen ?_
  cases newLine : mid.token.onNewLine with
  | true => exact .inl rfl
  | false =>
    right
    have inside : mid.token.column ≠ 0 := by
      have := Cursor.column_le_token newLine
      omega
    have noStart : mid.token.atDocumentStart = false := by
      rw [Token.atDocumentStart, beq_false_of_ne inside]
      rfl
    have noEnd : mid.token.atDocumentEnd = false := by
      rw [Token.atDocumentEnd, beq_false_of_ne inside]
      rfl
    obtain ⟨-, ⟨-, ends, -⟩ | ⟨-, -, ends, -⟩⟩ := readDocumentEnd_eq_ok.mp ending
    · rw [noEnd] at ends
      contradiction
    · rw [Token.endsDocument, Token.atMarker, noStart, noEnd] at ends
      simpa using ends

/-- A stream that was edited at one place and is read again keeps the column of what
stands behind. -/
theorem DocumentsEditsAt.keepsColumn {after trailer : Text} {ds ds' : List Document}
    (replaces : Replaces old new) (edit : DocumentsEditsAt old new after ds ds') {cur cur' : Cursor}
    (aligned : cur.Aligned cur') (h : ReadsDocuments cur ds trailer)
    (h' : ReadsDocuments cur' ds' trailer) : KeepsColumn old new (after ++ trailer) := by
  induction edit generalizing cur cur' with
  | @here after d d' ds lead explicitStart tail explicitEnd body =>
    obtain ⟨mid, documentRead, rest, -⟩ := h.first
    obtain ⟨mid', documentRead', -⟩ := h'.first
    cases documentRead with
    | @document afterStart afterBody _ _ _ start leadRead startRead bodyRead ending =>
      cases documentRead' with
      | @document afterStart' afterBody' _ _ _ start' leadRead' startRead' bodyRead' ending' =>
        have taken := readDocumentStart_takes start
        have taken' := readDocumentStart_takes start'
        rw [← leadRead, ← startRead] at taken
        rw [← leadRead', ← startRead', lead, explicitStart] at taken'
        have place := aligned.takes taken taken'
        have slot : SlotEditsAt old new after d.body d'.body := .inside body
        obtain ⟨⟨floor, read⟩, floor', read'⟩ :=
          slot.readsValue replaces bodyRead.reads bodyRead'.reads
        have behindBody : afterBody.rest = d.endText ++ mid.rest :=
          (readDocumentEnd_takes ending).rest_eq
        rw [List.append_assoc, List.append_assoc, ← rest, ← behindBody]
        rcases body.endsAfter replaces place read read' with ⟨rfl, mayOpen, position, -⟩ | keeps
        · exact keepsColumn_of_documentEnd mayOpen position ending
        · exact keeps
  | later edit ih =>
    obtain ⟨mid, documentRead, -, next⟩ := h.first
    obtain ⟨mid', documentRead', -, next'⟩ := h'.first
    have place := aligned.takes documentRead.takes documentRead'.takes
    rcases next with ⟨rfl, -⟩ | ⟨-, others⟩
    · cases edit
    · rcases next' with ⟨rfl, -⟩ | ⟨-, others'⟩
      · cases edit
      · exact ih place others others'

end ConfigTree.Yaml
