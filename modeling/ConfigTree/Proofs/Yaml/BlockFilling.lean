import ConfigTree.Proofs.Yaml.FlowFilling
import ConfigTree.Proofs.Yaml.EditedDocuments
import ConfigTree.Proofs.Yaml.Replacing

/-!
# Absent values in mappings of mappings

Around the flow mapping in which an absent value is filled in there can be block mappings. Their
entries in front of it see the same text ahead, and those behind it stand on later lines, so that
they begin where they began.
-/

namespace ConfigTree.Yaml

/-- There is nothing more on the line, apart from a comment. -/
def Cursor.Quiet (cur : Cursor) : Prop := cur.token.onNewLine = true ∨ cur.token.atEnd = true

/-- The two cursors are in front of the same text. Their columns differ only where the line ends. -/
structure Cursor.Rejoins (cur cur' : Cursor) : Prop extends cur.Meets cur' where
  rest : cur'.rest = cur.rest

theorem Cursor.Shifted.rejoins {cur cur' : Cursor} (h : cur.Shifted cur') (quiet : cur.Quiet) :
    cur.Rejoins cur' :=
  ⟨⟨h.mayOpen, .inr quiet⟩, h.rest⟩

namespace Cursor.Rejoins

variable {cur cur' : Cursor}

theorem refl (cur : Cursor) : cur.Rejoins cur := ⟨⟨rfl, .inl rfl⟩, rfl⟩

theorem shifted (h : cur.Rejoins cur') : cur.Shifted cur' := ⟨h.mayOpen, h.rest⟩

theorem resumes (h : cur.Rejoins cur') : cur.Resumes cur' := by
  refine ⟨h.toMeets, ?_⟩
  rw [h.rest]
  exact .same _

/-- What stands there is read alike. -/
theorem token_eq (h : cur.Rejoins cur') (more : cur.token.atEnd = false) :
    cur'.token = cur.token :=
  congrArg₂ Token.mk h.shifted.lead
    (Cursor.eq_of_aligned (h.resumes.aligned more).here h.shifted.here.rest)

end Cursor.Rejoins

theorem nextEntry_of_token {column : Nat} {cur cur' : Cursor} (h : cur'.token = cur.token) :
    nextEntry column cur' = nextEntry column cur := by
  unfold nextEntry
  rw [h]

theorem ReadsEntries.of_token {column : Nat} {cur cur' last : Cursor} {es : List Entry}
    (h : cur'.token = cur.token) (read : ReadsEntries column cur es last) :
    ReadsEntries column cur' es last := by
  cases read with
  | last found keyRead valueRead next => exact .last (h.trans found) keyRead valueRead next
  | more found keyRead valueRead next others =>
    exact .more (h.trans found) keyRead valueRead next others

section Filled

variable {style : CollectionStyle} {key new : Scalar}

/-- The first entry keeps its key, with what stands in front of it and behind it. -/
theorem EntriesFilled.first {own : CollectionStyle} {id : NodeId} {lead gap : Text} {above : Scalar}
    {value : Value} {comma : Option Text} {es es' : List Entry}
    (h : EntriesFilled style key new own (⟨id, lead, above, gap, value, comma⟩ :: es) es') :
    ∃ id' value' others, es' = ⟨id', lead, above, gap, value', comma⟩ :: others := by
  cases h with
  | absent | inside | later => exact ⟨_, _, _, rfl⟩

theorem ReadsEntries.begins_filled {own : CollectionStyle} {column : Nat} {cur last : Cursor}
    {es es' : List Entry} (h : ReadsEntries column cur es last)
    (edit : EntriesFilled style key new own es es') :
    cur.token.Begins (entriesPrint es') ∧ cur.token.here.rest ≠ [] := by
  obtain ⟨id, lead, here, above, gap, value, afterColon, mid, others, rfl, found, keyRead, -⟩ :=
    h.first
  obtain ⟨taken, -, keyLead, unmarked⟩ := readKey_takes keyRead
  obtain ⟨id', value', others', rfl⟩ := edit.first
  have inside : afterColon.rest.length < cur.token.here.rest.length := by
    rw [found]
    exact Nat.lt_of_succ_lt (readKey_length_lt keyRead)
  rw [entriesPrint_cons, Entry.print_mk unmarked keyLead, List.append_assoc]
  have begins := ((cur.takes_of_token found).trans taken).begins inside
  exact ⟨begins.append _, ne_nil_of_shorter inside⟩

theorem head_append_of_head {s t t' : Text} (h : t'.head? = t.head?) :
    (s ++ t').head? = (s ++ t).head? := by
  cases s with
  | nil => exact h
  | cons c s => rfl

/-- A mapping that opens no block collection is a flow mapping. -/
theorem ReadsPlainValue.of_filled {floor : Nat} {cur last : Cursor} {u u' : Value}
    (h : ReadsPlainValue floor cur u last) (edit : Value.Filled style key new u u') :
    ReadsFlowValue cur u last := by
  cases h with
  | flow opening valueRead => exact valueRead
  | block | scalar => cases edit

/-- A filled value begins as it began. -/
theorem ReadsValue.begins_filled {floor : Nat} {cur last : Cursor} {u u' : Value}
    (h : ReadsValue floor cur u last) (edit : Value.Filled style key new u u') :
    cur.token.Begins u'.print ∧ cur.token.here.rest ≠ [] := by
  cases h with
  | sequence => cases edit
  | mapping notItem opens entriesRead =>
    cases edit with
    | mapping entries => exact entriesRead.begins_filled entries
  | plain notItem notEntry valueRead => exact edit.begins_flow (valueRead.of_filled edit)

/-- Filled entries begin with the character they began with. -/
theorem ReadsEntries.head_filled {own : CollectionStyle} {column : Nat} {cur last : Cursor}
    {es es' : List Entry} (h : ReadsEntries column cur es last)
    (edit : EntriesFilled style key new own es es') (rest : Text) :
    (entriesPrint es' ++ rest).head? = cur.rest.head? := by
  obtain ⟨id, lead, here, above, gap, value, afterColon, mid, others, rfl, found, keyRead, -⟩ :=
    h.first
  obtain ⟨taken, -, keyLead, unmarked⟩ := readKey_takes keyRead
  obtain ⟨id', value', others', rfl⟩ := edit.first
  rw [entriesPrint_cons, Entry.print_mk unmarked keyLead, List.append_assoc, List.append_assoc]
  exact ((cur.takes_of_token found).trans taken).head (by simp) _

theorem ReadsValue.head_filled {floor : Nat} {cur last : Cursor} {u u' : Value}
    (h : ReadsValue floor cur u last) (edit : Value.Filled style key new u u') (rest : Text) :
    (u'.print ++ rest).head? = cur.rest.head? := by
  cases h with
  | sequence => cases edit
  | mapping notItem opens entriesRead =>
    cases edit with
    | mapping entries => exact entriesRead.head_filled entries rest
  | plain notItem notEntry valueRead =>
    obtain ⟨inner, inner', here, print⟩ := edit.opens (valueRead.of_filled edit)
    rw [← cur.lead_append_token, here, print, List.append_assoc]
    exact head_append_of_head rfl

theorem ReadsEntryValue.head_filled {column : Nat} {cur last : Cursor} {u u' : Value}
    (h : ReadsEntryValue column cur u last) (edit : Value.Filled style key new u u')
    (rest : Text) : (u'.print ++ rest).head? = cur.rest.head? := by
  obtain ⟨s, rfl, -⟩ | ⟨floor, valueRead⟩ := h.reads
  · cases edit
  · exact valueRead.head_filled edit rest

/-- A blank stays in front of a text that goes on with the character it went on with. -/
theorem Cursor.Takes.closed {cur last : Cursor} {t rest' : Text} (h : cur.Takes t last)
    (closed : blankOrEnd cur.rest = true) (head : rest'.head? = last.rest.head?) :
    blankOrEnd (t ++ rest') = true := by
  rw [blankOrEnd_of_head (head_append_of_head head), ← h.rest_eq]
  exact closed

/-- The text from a filled entry of a block mapping on looks alike. -/
theorem ReadsEntries.ahead_filled {column : Nat} {cur last : Cursor} {es es' : List Entry}
    (inFlow : style ≠ .block) (h : ReadsEntries column cur es last)
    (edit : EntriesFilled style key new .block es es') :
    Ahead cur.commentMayOpen cur.rest (entriesPrint es' ++ last.rest) := by
  obtain ⟨id, lead, here, above, gap, value, afterColon, mid, others, rfl, found, keyRead,
    valueRead, othersRead⟩ := h.first
  obtain ⟨taken, -, keyLead, unmarked⟩ := readKey_takes keyRead
  have closed := blankOrEnd_of_readKey keyRead
  have ahead {value' : Value} {others' : List Entry}
      (closed' : blankOrEnd (value'.print ++ (entriesPrint others' ++ last.rest)) = true)
      (id' : NodeId) : Ahead cur.commentMayOpen cur.rest
        (entriesPrint (⟨id', lead, above, gap, value', none⟩ :: others') ++ last.rest) := by
    rw [entriesPrint_entry unmarked keyLead]
    exact Cursor.ahead_of_word found taken ⟨':', by simp, by decide⟩ closed closed'
  cases edit with
  | absent => contradiction
  | inside edit => exact ahead ((blankOrEnd_of_head (valueRead.head_filled edit _)).trans closed) _
  | later othersEdit =>
    refine ahead ?_ _
    rcases othersRead with ⟨rfl, rfl⟩ | ⟨-, othersRead⟩
    · cases othersEdit
    · exact valueRead.takes.closed closed (othersRead.head_filled othersEdit _)

/-! ## Reading filled block mappings -/

/-- A plain text can take its own place. -/
theorem PlainText.replaces {v : Text} (h : PlainText v) :
    Replaces (.fresh [] .plain v) (.fresh [] .plain v) :=
  ⟨rfl, rfl, h.nonempty, rfl, rfl, rfl, h⟩

/-- The key of an entry in an edited text stands where it stood. -/
theorem Cursor.Aligned.atKey {cur cur' here afterColon : Cursor} {lead gap rest' : Text}
    {above : Scalar} (h : cur.Aligned cur') (found : cur.token = ⟨lead, here⟩)
    (keyRead : readKey ⟨lead, here⟩ = .ok ((above.unnumbered, gap), afterColon))
    (text' : cur'.rest = lead ++ (above.written ++ gap ++ [':'] ++ rest'))
    (closed : blankOrEnd rest' = true) :
    ∃ here' afterColon', cur'.token = ⟨lead, here'⟩ ∧
      readKey ⟨lead, here'⟩ = .ok ((above.unnumbered, gap), afterColon') ∧
      afterColon.Aligned afterColon' ∧ afterColon'.rest = rest' := by
  obtain ⟨taken, -, -, -⟩ := readKey_takes keyRead
  obtain ⟨here', afterColon', found', -, -, keyTaken, aligned, rest⟩ :=
    h.atTaken found taken (Nat.lt_of_succ_lt (readKey_length_lt keyRead)) text'
  have keyRead' := readKey_aligned ⟨lead, here'⟩ keyRead keyTaken (rest.symm ▸ closed)
  exact ⟨here', afterColon', found', keyRead', aligned, rest⟩

/-- A flow mapping opens neither an item nor an entry. -/
theorem opensNothing_of_brace {t : Text} (h : t.head? = some '\x7b') : OpensNothing t := by
  obtain ⟨rest, rfl⟩ := List.head?_eq_some_iff.mp h
  exact ⟨rfl, opensEntry_of_cannotOpenKey rfl⟩

theorem ReadsFlowValue.column_pos {cur last : Cursor} {m : Mapping}
    (h : ReadsFlowValue cur (.mapping m) last) : 0 < last.column := by
  have taken := h.takes
  cases h with
  | mapping found opening inner =>
    rw [Value.print_flow_mapping, ← List.append_assoc, ← List.append_assoc] at taken
    exact column_pos_of_takes (by decide) taken

/-- A filled value that opens no block collection is read from the edited text. -/
theorem ReadsPlainValue.filled {floor : Nat} {cur cur' last : Cursor} {u u' : Value}
    (fills : new.Fills) (quoted : key.style ≠ .plain) (edit : Value.Filled style key new u u')
    (aligned : cur.Aligned cur') (text' : cur'.rest = u'.print ++ last.rest)
    (quiet : 0 < last.column → last.Quiet)
    (read : ReadsPlainValue floor cur u last) :
    ∃ last', ReadsPlainValue floor cur' u' last' ∧ cur'.token.here.rest.head? = some '\x7b' ∧
      last.Rejoins last' := by
  have read := read.of_filled edit
  obtain ⟨last', read', last⟩ := read.filled fills quoted edit aligned text'
  cases edit with
  | mapping entries =>
    have quiet := quiet read.column_pos
    have head : cur'.token.here.rest.head? = some '\x7b' := by
      cases read' with
      | mapping found' opening' inner' =>
        rw [found', opening']
        rfl
    exact ⟨last', .flow (.inr head) read', head, last.rejoins quiet⟩

mutual

/-- A filled value is read from the edited text. -/
theorem ReadsValue.filled {floor : Nat} {cur cur' last : Cursor} {u u' : Value}
    (fills : new.Fills) (inFlow : style ≠ .block) (quoted : key.style ≠ .plain)
    (edit : Value.Filled style key new u u') (aligned : cur.Aligned cur')
    (text' : cur'.rest = u'.print ++ last.rest) (quiet : 0 < last.column → last.Quiet) :
    ReadsValue floor cur u last → ∃ last', ReadsValue floor cur' u' last' ∧ last.Rejoins last'
  | .sequence _ _ => by cases edit
  | .mapping notItem opens entriesRead => by
    cases edit with
    | mapping entries =>
      obtain ⟨begins, more⟩ := entriesRead.begins_filled entries
      have token := aligned.token_of_begins more begins (.past text')
      have resumes : cur.Resumes cur' :=
        ⟨aligned.meets, text' ▸ entriesRead.ahead_filled inFlow entries⟩
      obtain ⟨last', entriesRead', last⟩ :=
        entriesRead.filled fills inFlow quoted entries aligned text' quiet
      rw [← token.column] at entriesRead'
      exact ⟨last', .mapping (resumes.opensItem.trans notItem) entriesRead'.opensEntry entriesRead',
        last⟩
  | .plain notItem notEntry valueRead => by
    obtain ⟨last', valueRead', brace, last⟩ :=
      valueRead.filled fills quoted edit aligned text' quiet
    have opens := opensNothing_of_brace brace
    exact ⟨last', .plain opens.notItem opens.notEntry valueRead', last⟩

/-- The filled entries of a block mapping are read from the edited text. -/
theorem ReadsEntries.filled {column : Nat} {cur cur' last : Cursor} {es es' : List Entry}
    (fills : new.Fills) (inFlow : style ≠ .block) (quoted : key.style ≠ .plain)
    (edit : EntriesFilled style key new .block es es')
    (aligned : cur.Aligned cur') (text' : cur'.rest = entriesPrint es' ++ last.rest)
    (quiet : 0 < last.column → last.Quiet) :
    ReadsEntries column cur es last →
      ∃ last', ReadsEntries column cur' es' last' ∧ last.Rejoins last'
  | .last found keyRead valueRead next => by
    obtain ⟨taken, -, keyLead, unmarked⟩ := readKey_takes keyRead
    have closed := blankOrEnd_of_readKey keyRead
    have position := column_pos_of_readKey keyRead
    cases edit with
    | absent => contradiction
    | later othersEdit => cases othersEdit
    | inside edit =>
      rw [entriesPrint_entry unmarked keyLead] at text'
      obtain ⟨here', afterColon', found', keyRead', afterColon, rest'⟩ :=
        aligned.atKey found keyRead text'
          ((blankOrEnd_of_head (valueRead.head_filled edit _)).trans closed)
      obtain ⟨last', valueRead', last⟩ :=
        valueRead.filled fills inFlow quoted edit afterColon position rest' quiet
      exact ⟨last', .last found' keyRead' valueRead' (last.resumes.nextEntry_eq_none next), last⟩
  | .more found keyRead valueRead next others => by
    obtain ⟨taken, -, keyLead, unmarked⟩ := readKey_takes keyRead
    have closed := blankOrEnd_of_readKey keyRead
    have position := column_pos_of_readKey keyRead
    obtain ⟨-, goesOn, newLine, -⟩ := nextEntry_eq_some.mp next
    cases edit with
    | absent => contradiction
    | inside edit =>
      rw [entriesPrint_entry unmarked keyLead] at text'
      obtain ⟨here', afterColon', found', keyRead', afterColon, rest'⟩ :=
        aligned.atKey found keyRead text'
          ((blankOrEnd_of_head (valueRead.head_filled edit _)).trans closed)
      rw [← others.takes.rest_eq] at rest'
      obtain ⟨mid', valueRead', mid⟩ := valueRead.filled fills inFlow quoted edit afterColon
        position rest' fun _ => .inl newLine
      have same := mid.token_eq (Cursor.Resumes.atEnd_of_endsDocument goesOn)
      have next' := (nextEntry_of_token same).trans next
      rw [← same] at next'
      exact ⟨last, .more found' keyRead' valueRead' next' (others.of_token same), .refl last⟩
    | later othersEdit =>
      rw [entriesPrint_entry unmarked keyLead] at text'
      have closed' := valueRead.takes.closed closed (others.head_filled othersEdit last.rest)
      obtain ⟨here', afterColon', found', keyRead', afterColon, rest'⟩ :=
        aligned.atKey found keyRead text' closed'
      obtain ⟨mid', valueTaken', rest'⟩ := Cursor.exists_takes rest'
      have ahead : Ahead _ _ mid'.rest := rest' ▸ others.ahead_filled inFlow othersEdit
      have mid := afterColon.takes valueRead.takes valueTaken'
      obtain ⟨valueRead', -⟩ := valueRead.edited fills.text.toPlainText.replaces (.inside (.same _))
        afterColon valueTaken' closed position ahead
      have resumes : Cursor.Resumes _ mid' := ⟨mid.meets, ahead⟩
      obtain ⟨last', others', last⟩ :=
        others.filled fills inFlow quoted othersEdit mid rest' quiet
      exact ⟨last', .more found' keyRead' valueRead' (resumes.nextEntry_eq_some next) others', last⟩

theorem ReadsEntryValue.filled {column : Nat} {cur cur' last : Cursor} {u u' : Value}
    (fills : new.Fills) (inFlow : style ≠ .block) (quoted : key.style ≠ .plain)
    (edit : Value.Filled style key new u u') (aligned : cur.Aligned cur')
    (position : 0 < cur.column)
    (text' : cur'.rest = u'.print ++ last.rest) (quiet : 0 < last.column → last.Quiet) :
    ReadsEntryValue column cur u last →
      ∃ last', ReadsEntryValue column cur' u' last' ∧ last.Rejoins last'
  | .absent _ _ | .sequence _ _ _ _ _ => by cases edit
  | .inline more sameLine notItem notEntry valueRead => by
    obtain ⟨begins, significant⟩ := edit.begins_flow (valueRead.of_filled edit)
    have token := aligned.token_of_begins significant begins (.past text')
    obtain ⟨last', valueRead', brace, last⟩ :=
      valueRead.filled fills quoted edit aligned text' quiet
    have opens := opensNothing_of_brace brace
    exact ⟨last', valueRead'.inline token position sameLine opens, last⟩
  | .nested more newLine inside valueRead => by
    obtain ⟨begins, significant⟩ := valueRead.begins_filled edit
    have token := aligned.token_of_begins significant begins (.past text')
    obtain ⟨last', valueRead', last⟩ :=
      valueRead.filled fills inFlow quoted edit aligned text' quiet
    exact ⟨last', valueRead'.nested token newLine inside, last⟩

end

end Filled

end ConfigTree.Yaml
