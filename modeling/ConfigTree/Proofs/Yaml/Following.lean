import ConfigTree.Proofs.Yaml.Rewriting

/-!
# Reading in front of a document start

A text whose last line ends is read alike when a document start follows it: wherever a reader came
to the end of the text it now comes to the marker, and every place where reading asks for the end of
the text it takes a marker as well. The cursors of the longer text are those of the shorter one
`followedBy` what was added.
-/

namespace ConfigTree.Yaml

/-- The cursor at the same place when `more` stands behind the end of the text. -/
def Cursor.followedBy (cur : Cursor) (more : Text) : Cursor := { cur with rest := cur.rest ++ more }

/-- The cursor is in a text whose last line ends: behind the text a line begins. -/
structure Cursor.WholeLines (cur : Cursor) : Prop where
  column : columnAfter cur.column cur.rest = 0
  mayOpen : openAfter cur.commentMayOpen cur.rest = true

theorem Cursor.Takes.followedBy {cur last : Cursor} {t : Text} (h : cur.Takes t last)
    (more : Text) : (cur.followedBy more).Takes t (last.followedBy more) := by
  obtain ⟨whole, position⟩ := h
  refine ⟨?_, ?_⟩
  · show cur.rest ++ more = t ++ (last.rest ++ more)
    rw [whole, List.append_assoc]
  · rw [position]
    rfl

theorem Cursor.aligned_followedBy (cur : Cursor) (more : Text) :
    cur.Aligned (cur.followedBy more) := ⟨rfl, rfl⟩

/-- Only a line feed leads to the start of a line. -/
theorem exists_of_columnAfter {column : Nat} {t : Text} (h : columnAfter column t = 0) :
    t = [] ∨ ∃ s, t = s ++ ['\n'] := by
  rcases List.eq_nil_or_concat t with rfl | ⟨s, c, rfl⟩
  · exact .inl rfl
  · rw [List.concat_eq_append] at h ⊢
    rw [columnAfter_append, columnAfter, columnAfter] at h
    by_cases lineFeed : c = '\n'
    · exact .inr ⟨s, by rw [lineFeed]⟩
    · rw [if_neg lineFeed] at h
      have := Char.utf8Size_pos c
      omega

namespace Cursor.WholeLines

variable {cur last : Cursor}

theorem takes {t : Text} (h : cur.WholeLines) (taken : cur.Takes t last) : last.WholeLines := by
  obtain ⟨column, mayOpen⟩ := h
  rw [taken.rest_eq] at column mayOpen
  rw [columnAfter_append] at column
  rw [openAfter_append] at mayOpen
  rw [taken.2]
  exact ⟨column, mayOpen⟩

theorem token (h : cur.WholeLines) : cur.token.here.WholeLines := h.takes cur.takes_token

theorem of_token {lead : Text} {here : Cursor} (h : cur.WholeLines)
    (found : cur.token = ⟨lead, here⟩) : here.WholeLines := h.takes (cur.takes_of_token found)

theorem rest_cases (h : cur.WholeLines) : cur.rest = [] ∨ ∃ s, cur.rest = s ++ ['\n'] :=
  exists_of_columnAfter h.column

/-- At the end of the text a line begins. -/
theorem eq_start (h : cur.WholeLines) (ends : cur.rest = []) (more : Text) :
    cur.followedBy more = .start more := by
  obtain ⟨column, mayOpen⟩ := h
  rw [ends] at column mayOpen
  obtain ⟨c, o, rest⟩ := cur
  simp_all [Cursor.followedBy, Cursor.start, columnAfter, openAfter]

/-- Within a line there is more to come. -/
theorem rest_of_column (h : cur.WholeLines) (inside : 0 < cur.column) :
    ∃ s, cur.rest = s ++ ['\n'] := by
  rcases h.rest_cases with ends | goesOn
  · have column := h.column
    rw [ends, columnAfter] at column
    omega
  · exact goesOn

end Cursor.WholeLines

/-- Behind the end of a line no word goes on. -/
theorem firstWord_followedBy {t : Text} (more : Text) (lines : ∃ s, t = s ++ ['\n']) :
    firstWord (t ++ more) = firstWord t := by
  obtain ⟨s, rfl⟩ := lines
  rw [List.append_assoc, firstWord_append s rfl, firstWord_append s rfl]

/-- The first character of a line that is no blank, whatever follows the line. -/
theorem exists_solid_of_line (s more : Text) :
    ∃ blanks d after, s ++ ['\n'] = blanks ++ d :: after ∧
      s ++ '\n' :: more = blanks ++ d :: (after ++ more) ∧
      (∀ c ∈ blanks, isInlineBlank c = true) ∧ isInlineBlank d = false ∧
      (after = [] → d = '\n') := by
  have lineFeed : ∃ c ∈ s ++ ['\n'], isInlineBlank c = false := ⟨'\n', by simp, rfl⟩
  obtain ⟨blanks, d, after, whole, all, solid⟩ := exists_inlineBlanks lineFeed
  refine ⟨blanks, d, after, whole, ?_, all, solid, ?_⟩
  · rw [← List.singleton_append, ← List.append_assoc, whole]
    simp
  · rintro rfl
    obtain ⟨-, last⟩ := List.append_inj' whole rfl
    exact (List.cons.inj last).1.symm

/-- The last line taken has content. -/
theorem contentLines_append_blank_ne (floor : Nat) (pieces : List Text) :
    contentLines floor (pieces ++ [[]]) ≠ pieces ++ [[]] := by
  induction pieces with
  | nil => simp [contentLines, Text.isBlank]
  | cons piece pieces ih =>
    rw [List.cons_append, Ne, contentLines_cons_eq_cons]
    exact fun taken => ih taken.1

/-- The text of a literal or folded scalar does not end with a line. -/
theorem ne_line_of_scanBlockScalar {floor : Nat} {text rest : Text}
    (scanned : scanBlockScalar floor (text ++ rest) = (text, rest)) (s : Text) :
    text ≠ s ++ ['\n'] := by
  rintro rfl
  obtain ⟨header, lines, split, content⟩ := (scanBlockScalar_eq_iff.mp scanned).1
  rw [Text.splitOn_append_cons] at split
  obtain ⟨piece, pieces, split'⟩ :=
    List.exists_cons_of_ne_nil (Text.splitOn_ne_nil '\n' s)
  rw [split'] at split
  obtain ⟨-, rfl⟩ := List.cons.inj split
  exact contentLines_append_blank_ne floor pieces content

theorem column_pos_of_takes_ne {cur last : Cursor} {t : Text} (h : cur.Takes t last)
    (nonempty : t ≠ []) (notLine : ∀ s, t ≠ s ++ ['\n']) : 0 < last.column := by
  obtain ⟨s, c, rfl⟩ : ∃ s c, t = s ++ [c] :=
    ⟨_, _, (List.dropLast_concat_getLast nonempty).symm⟩
  exact column_pos_of_takes (fun lineFeed => notLine s (by rw [lineFeed])) h

/-- A scalar on one line, or in quotes, ends within a line. -/
theorem column_pos_of_readScalar {tok : Token} {s : Scalar} {last : Cursor}
    (h : readScalar false tok = .ok (s.unnumbered, last)) : 0 < last.column := by
  obtain ⟨taken, nonempty, -, -⟩ := readScalar_takes h
  refine column_pos_of_takes_ne taken nonempty ?_
  intro t ends
  cases style : s.style with
  | plain =>
    obtain ⟨nonempty, -, scanned⟩ := scanPlain_of_readScalar h style
    obtain ⟨-, -, -, -, noLineFeed⟩ := scanPlain_eq scanned nonempty
    rw [Scalar.written, style] at ends
    exact noLineFeed (by rw [show s.text = _ from ends]; simp)
  | singleQuoted | doubleQuoted =>
    rw [Scalar.written, style] at ends
    obtain ⟨-, quote⟩ := List.append_inj' ends rfl
    simp at quote
  | literal | folded =>
    obtain ⟨-, found, text, rest, scanned, -, fresh, -⟩ := readScalar_eq_ok.mp h
    have sameStyle : found = s.style := (congrArg Scalar.style fresh).symm
    rw [sameStyle, style] at scanned
    unfold scanScalar at scanned
    split at scanned <;> simp at scanned

/-- A literal or folded scalar ends within its last line. -/
theorem column_pos_of_readBlockScalar {style : ScalarStyle} {c : Char} {floor : Nat} {tok : Token}
    {rest : Text} {s : Scalar} {last : Cursor} (indicator : isIndicatorOf style c)
    (opening : tok.here.rest = c :: rest)
    (read : readBlockScalar style floor tok rest = (s.unnumbered, last)) : 0 < last.column := by
  obtain ⟨taken, nonempty, -, -⟩ := readBlockScalar_takes indicator opening read
  refine column_pos_of_takes_ne taken nonempty ?_
  intro t ends
  have whole := scanBlockScalar_append floor rest
  have notLine := ne_line_of_scanBlockScalar (congrArg (scanBlockScalar floor) whole)
  rw [readBlockScalar_eq] at read
  have fresh := congrArg (·.1.written) read
  have written : s.written = c :: (scanBlockScalar floor rest).1 := by
    rw [show s.written = s.unnumbered.written from rfl, ← fresh]
    rcases indicator with ⟨rfl, rfl⟩ | ⟨rfl, rfl⟩ <;> rfl
  rw [written] at ends
  cases t with
  | nil =>
    obtain ⟨rfl, -⟩ := List.cons.inj ends
    rcases indicator with ⟨-, same⟩ | ⟨-, same⟩ <;> contradiction
  | cons d t => exact notLine t (List.cons.inj ends).2

theorem ReadsPlainValue.column_pos {floor : Nat} {cur last : Cursor} {v : Value}
    (h : ReadsPlainValue floor cur v last) : 0 < last.column := by
  cases h with
  | flow opening valueRead =>
    have taken := valueRead.takes
    cases valueRead with
    | sequence =>
      rw [Value.print_flow_sequence, ← List.append_assoc, ← List.append_assoc] at taken
      exact column_pos_of_takes (by decide) taken
    | mapping =>
      rw [Value.print_flow_mapping, ← List.append_assoc, ← List.append_assoc] at taken
      exact column_pos_of_takes (by decide) taken
    | scalar notSequence notMapping read => exact absurd opening (by simp [notSequence, notMapping])
  | block indicator opening read => exact column_pos_of_readBlockScalar indicator opening read
  | scalar _ read => exact column_pos_of_readScalar read

/-- A blank that follows within a line is there whatever follows the line. -/
theorem Cursor.WholeLines.blankOrEnd {cur : Cursor} (lines : cur.WholeLines)
    (inside : 0 < cur.column) (closed : blankOrEnd cur.rest = true) (more : Text) :
    blankOrEnd (cur.rest ++ more) = true := by
  obtain ⟨s, goesOn⟩ := lines.rest_of_column inside
  rw [blankOrEnd_of_head (head_append_left (by simp [goesOn]) more).symm]
  exact closed

theorem readKey_followedBy {here last : Cursor} {lead gap : Text} {key : Scalar}
    (lines : here.WholeLines) (h : readKey ⟨lead, here⟩ = .ok ((key.unnumbered, gap), last))
    (more : Text) :
    readKey ⟨lead, here.followedBy more⟩ = .ok ((key.unnumbered, gap), last.followedBy more) ∧
      last.WholeLines := by
  obtain ⟨taken, -, -, -⟩ := readKey_takes h
  have behind := lines.takes taken
  have closed := behind.blankOrEnd (column_pos_of_readKey h) (blankOrEnd_of_readKey h) more
  exact ⟨readKey_aligned _ h (taken.followedBy more) closed, behind⟩

theorem dash_followedBy {here : Cursor} {rest : Text} (lines : here.WholeLines)
    (dash : here.rest = '-' :: rest) (closed : blankOrEnd rest = true) (more : Text) :
    (here.followedBy more).rest = '-' :: (rest ++ more) ∧ blankOrEnd (rest ++ more) = true ∧
      (here.past ['-'] rest).WholeLines := by
  have taken : here.Takes ['-'] (here.past ['-'] rest) := .past dash
  have behind := lines.takes taken
  exact ⟨congrArg (· ++ more) dash, behind.blankOrEnd (column_pos_of_dash dash) closed more, behind⟩

/-! ## The token ahead -/

section Marker

variable {next : Text} (marker : opensDocument next = true)

include marker

theorem trivia_of_opensDocument (mayOpen : Bool) : trivia mayOpen false next = ([], next) := by
  rw [opensDocument_eq marker]
  rfl

/-- The blanks and comments of whole lines end with them. -/
theorem trivia_followedBy {mayOpen inComment : Bool} {t : Text}
    (closed : t = [] → inComment = false) (lines : t = [] ∨ ∃ s, t = s ++ ['\n']) :
    trivia mayOpen inComment (t ++ next) =
      ((trivia mayOpen inComment t).1, (trivia mayOpen inComment t).2 ++ next) := by
  induction t generalizing mayOpen inComment with
  | nil =>
    rw [closed rfl]
    exact trivia_of_opensDocument marker mayOpen
  | cons c t ih =>
    have lines' : t = [] ∨ ∃ s, t = s ++ ['\n'] := by
      obtain ⟨s, whole⟩ := lines.resolve_left (List.cons_ne_nil _ _)
      cases s with
      | nil => exact .inl (List.cons.inj whole).2
      | cons d s => exact .inr ⟨s, (List.cons.inj whole).2⟩
    have lineFeed : t = [] → c = '\n' := by
      rintro rfl
      obtain ⟨s, whole⟩ := lines.resolve_left (List.cons_ne_nil _ _)
      cases s with
      | nil => exact (List.cons.inj whole).1
      | cons d s => simp at whole
    rw [List.cons_append, trivia, trivia]
    split
    · rw [ih (fun ends => by simp [lineFeed ends]) lines']
    · split
      · rw [ih (fun _ => rfl) lines']
      · split
        · rename_i opens
          rw [ih (fun ends => by simp [lineFeed ends] at opens) lines']
        · rfl

/-- The text after a document start begins with it. -/
theorem Cursor.token_start : (Cursor.start next).token = ⟨[], .start next⟩ := by
  unfold Cursor.token
  rw [show (Cursor.start next).rest = next from rfl, trivia_of_opensDocument marker]
  rfl

namespace Cursor.WholeLines

variable {cur last : Cursor}

theorem token_followedBy (h : cur.WholeLines) :
    (cur.followedBy next).token = ⟨cur.token.lead, cur.token.here.followedBy next⟩ := by
  have skipped : trivia cur.commentMayOpen false (cur.rest ++ next) = _ :=
    trivia_followedBy marker (fun _ => rfl) h.rest_cases
  unfold Cursor.token Cursor.followedBy
  dsimp only
  rw [skipped]
  rfl

theorem token_of_token {lead : Text} {here : Cursor} (h : cur.WholeLines)
    (found : cur.token = ⟨lead, here⟩) :
    (cur.followedBy next).token = ⟨lead, here.followedBy next⟩ := by
  rw [h.token_followedBy marker, found]

theorem aligned (h : cur.WholeLines) : cur.token.Aligned (cur.followedBy next).token := by
  rw [h.token_followedBy marker]
  exact ⟨rfl, cur.token.here.aligned_followedBy next⟩

theorem onNewLine (h : cur.WholeLines) :
    (cur.followedBy next).token.onNewLine = cur.token.onNewLine := by
  rw [h.token_followedBy marker]
  rfl

theorem column_token (h : cur.WholeLines) :
    (cur.followedBy next).token.column = cur.token.column := by
  rw [h.token_followedBy marker]
  rfl

theorem rest_token (h : cur.WholeLines) :
    (cur.followedBy next).token.here.rest = cur.token.here.rest ++ next := by
  rw [h.token_followedBy marker]
  rfl

/-- A marker is no item. -/
theorem opensItem (h : cur.WholeLines) :
    opensItem (cur.followedBy next).token.here.rest = opensItem cur.token.here.rest := by
  rw [h.rest_token marker]
  rcases h.token.rest_cases with ends | goesOn
  · rw [ends, List.nil_append, opensDocument_eq marker]
    rfl
  · exact opensItem_of_firstWord (firstWord_followedBy next goesOn)

theorem atDocumentEnd (h : cur.WholeLines) :
    (cur.followedBy next).token.atDocumentEnd = cur.token.atDocumentEnd := by
  unfold Token.atDocumentEnd
  rw [h.column_token marker, h.rest_token marker]
  rcases h.token.rest_cases with ends | goesOn
  · rw [ends, List.nil_append, opensDocument_eq marker]
    rfl
  · rw [closesDocument_of_firstWord (firstWord_followedBy next goesOn)]

theorem atEnd (h : cur.WholeLines) : (cur.followedBy next).token.atEnd = false := by
  unfold Token.atEnd
  rw [h.rest_token marker, opensDocument_eq marker]
  simp

/-- Before the end of the text a document starts where it started. -/
theorem atDocumentStart (h : cur.WholeLines) (more : cur.token.atEnd = false) :
    (cur.followedBy next).token.atDocumentStart = cur.token.atDocumentStart := by
  unfold Token.atDocumentStart
  rw [h.column_token marker, h.rest_token marker]
  rcases h.token.rest_cases with ends | goesOn
  · rw [Token.atEnd, ends] at more
    contradiction
  · rw [opensDocument_of_firstWord (firstWord_followedBy next goesOn)]

/-- At the end of the text the next document starts. -/
theorem token_of_atEnd (h : cur.WholeLines) (ends : cur.token.atEnd = true) :
    (cur.followedBy next).token = ⟨cur.token.lead, .start next⟩ := by
  rw [h.token_followedBy marker, h.token.eq_start (Token.rest_eq_nil ends)]

theorem endsDocument (h : cur.WholeLines) :
    (cur.followedBy next).token.endsDocument = cur.token.endsDocument := by
  unfold Token.endsDocument Token.atMarker
  rw [h.atEnd marker, h.atDocumentEnd marker]
  cases ends : cur.token.atEnd with
  | false => rw [h.atDocumentStart marker ends]
  | true =>
    rw [h.token_of_atEnd marker ends, Token.atDocumentStart]
    simp [Token.column, Cursor.start, marker]

theorem nextEntry_eq_none {column : Nat} (h : cur.WholeLines)
    (ahead : nextEntry column cur = .ok none) :
    nextEntry column (cur.followedBy next) = .ok none := by
  rw [Yaml.nextEntry_eq_none] at ahead ⊢
  rwa [h.endsDocument marker, h.column_token marker, h.onNewLine marker, h.opensItem marker]

theorem nextEntry_eq_some {column : Nat} (h : cur.WholeLines)
    (ahead : nextEntry column cur = .ok (some cur.token)) :
    nextEntry column (cur.followedBy next) = .ok (some (cur.followedBy next).token) := by
  rw [Yaml.nextEntry_eq_some] at ahead ⊢
  rw [h.endsDocument marker, h.column_token marker, h.onNewLine marker, h.opensItem marker]
  exact ⟨rfl, ahead.2⟩

theorem nextItem_eq_none {column : Nat} (h : cur.WholeLines)
    (ahead : nextItem column cur = .ok none) :
    nextItem column (cur.followedBy next) = .ok none := by
  rw [Yaml.nextItem_eq_none] at ahead ⊢
  rwa [h.endsDocument marker, h.column_token marker, h.opensItem marker]

theorem nextItem_eq_some {column : Nat} (h : cur.WholeLines)
    (ahead : nextItem column cur = .ok (some cur.token)) :
    nextItem column (cur.followedBy next) = .ok (some (cur.followedBy next).token) := by
  rw [Yaml.nextItem_eq_some] at ahead ⊢
  rw [h.endsDocument marker, h.column_token marker, h.opensItem marker]
  exact ⟨rfl, ahead.2⟩

end Cursor.WholeLines

/-- No content comes after a line that starts a document. -/
theorem contentEnds_of_opensDocument (floor : Nat) : contentEnds floor next := by
  have closed : blankOrEnd (next.drop 3) = true := by
    rw [opensDocument_eq marker] at marker
    exact marker
  rw [opensDocument_eq marker, contentEnds_word (by decide) ⟨'-', by decide, by decide⟩ closed]
  exact .inr rfl

/-- The content of a literal or folded scalar that ends with whole lines ends there before a
marker. -/
theorem contentEnds_followedBy {floor : Nat} {t : Text} (lines : t = [] ∨ ∃ s, t = s ++ ['\n'])
    (ends : contentEnds floor t) : contentEnds floor (t ++ next) := by
  have noMore := contentEnds_of_opensDocument marker floor
  obtain ⟨pieces, split, splitLonger⟩ : ∃ pieces, Text.splitOn '\n' t = pieces ++ [[]] ∧
      Text.splitOn '\n' (t ++ next) = pieces ++ Text.splitOn '\n' next := by
    rcases lines with rfl | ⟨s, rfl⟩
    · exact ⟨[], rfl, rfl⟩
    · refine ⟨Text.splitOn '\n' s, Text.splitOn_append_cons '\n' s [], ?_⟩
      rw [List.append_assoc]
      exact Text.splitOn_append_cons '\n' s next
  unfold contentEnds at *
  rw [split] at ends
  rw [splitLonger]
  clear split splitLonger
  induction pieces with
  | nil => exact noMore
  | cons piece pieces ih =>
    rw [List.cons_append, contentLines_cons_eq_nil] at ends ⊢
    split
    · rename_i blank
      rw [if_pos blank] at ends
      exact ih ends
    · rename_i solid
      rwa [if_neg solid] at ends

theorem stopsAlike_followedBy (s : Text) : StopsAlike (s ++ ['\n']) (s ++ '\n' :: next) := by
  obtain ⟨blanks, d, after, whole, longer, all, solid, last⟩ := exists_solid_of_line s next
  refine ⟨⟨by cases s <;> rfl, ?_⟩, ?_, ?_⟩
  · rw [whole, longer, plainStops_inlineBlanks all solid, plainStops_inlineBlanks all solid,
      plainRun_cons_eq_nil, plainRun_cons_eq_nil]
    cases after with
    | nil => exact fun _ => .inl (last rfl)
    | cons e after => exact id
  · rw [whole, longer, keyFollows_inlineBlanks all solid, keyFollows_inlineBlanks all solid]
    cases after with
    | nil =>
      rw [last rfl]
      rfl
    | cons e after => rfl
  · intro floor text scanned
    rw [scanBlockScalar_eq_iff] at scanned ⊢
    refine ⟨scanned.1, .inr ?_⟩
    obtain ends | ⟨t, ends, content⟩ := scanned.2
    · simp at ends
    · cases s with
      | nil =>
        obtain ⟨-, rfl⟩ := List.cons.inj ends
        exact ⟨next, rfl, contentEnds_of_opensDocument marker floor⟩
      | cons c s =>
        obtain ⟨rfl, rfl⟩ := List.cons.inj ends
        refine ⟨_, rfl, ?_⟩
        have longer := contentEnds_followedBy marker (.inr ⟨s, rfl⟩) content
        rwa [List.append_assoc] at longer

/-- A value that opens no block collection ends within a line, so the next line feed keeps it from
seeing the marker. -/
theorem ReadsPlainValue.followedBy {floor : Nat} {cur last : Cursor} {v : Value}
    (h : ReadsPlainValue floor cur v last) (lines : cur.WholeLines)
    (opens : OpensNothing cur.token.here.rest) :
    ReadsPlainValue floor (cur.followedBy next) v (last.followedBy next) ∧
      OpensNothing (cur.followedBy next).token.here.rest := by
  obtain ⟨s, goesOn⟩ := (lines.takes h.takes).rest_of_column h.column_pos
  have alike : StopsAlike last.rest (last.rest ++ next) := by
    rw [goesOn, List.append_assoc]
    exact stopsAlike_followedBy marker s
  obtain ⟨read, -, opens'⟩ :=
    h.aligned (lines.aligned marker) (h.takes.followedBy next) alike opens
  exact ⟨read, opens'⟩

/-! ## Block collections -/

mutual

/-- A value is read again in front of a document start. -/
theorem ReadsValue.followedBy {floor : Nat} {cur last : Cursor} {v : Value}
    (lines : cur.WholeLines) :
    ReadsValue floor cur v last → ReadsValue floor (cur.followedBy next) v (last.followedBy next)
  | .sequence opens itemsRead => by
    have items := itemsRead.followedBy lines
    rw [← lines.column_token marker] at items
    exact .sequence (by rwa [lines.opensItem marker]) items
  | .mapping notItem opens entriesRead => by
    have entries := entriesRead.followedBy lines
    have opens' := entries.opensEntry
    rw [← lines.column_token marker] at entries
    exact .mapping (by rwa [lines.opensItem marker]) opens' entries
  | .plain notItem notEntry valueRead => by
    obtain ⟨read, notItem', notEntry'⟩ := valueRead.followedBy marker lines ⟨notItem, notEntry⟩
    exact .plain notItem' notEntry' read

theorem ReadsEntries.followedBy {column : Nat} {cur last : Cursor} {es : List Entry}
    (lines : cur.WholeLines) :
    ReadsEntries column cur es last →
      ReadsEntries column (cur.followedBy next) es (last.followedBy next)
  | .last found keyRead valueRead ahead => by
    obtain ⟨key, behind⟩ := readKey_followedBy (lines.of_token found) keyRead next
    have value := valueRead.followedBy behind
    have linesMid := behind.takes valueRead.takes
    exact .last (lines.token_of_token marker found) key value
      (linesMid.nextEntry_eq_none marker ahead)
  | .more found keyRead valueRead ahead others => by
    obtain ⟨key, behind⟩ := readKey_followedBy (lines.of_token found) keyRead next
    have value := valueRead.followedBy behind
    have linesMid := behind.takes valueRead.takes
    exact .more (lines.token_of_token marker found) key value
      (linesMid.nextEntry_eq_some marker ahead) (others.followedBy linesMid)

theorem ReadsEntryValue.followedBy {column : Nat} {cur last : Cursor} {v : Value}
    (lines : cur.WholeLines) :
    ReadsEntryValue column cur v last →
      ReadsEntryValue column (cur.followedBy next) v (last.followedBy next)
  | .absent empty ahead => by
    refine .absent empty ?_
    rwa [lines.endsDocument marker, lines.onNewLine marker, lines.column_token marker,
      lines.opensItem marker]
  | .inline more sameLine notItem notEntry valueRead => by
    obtain ⟨read, notItem', notEntry'⟩ := valueRead.followedBy marker lines ⟨notItem, notEntry⟩
    refine .inline ?_ ?_ notItem' notEntry' read
    · rwa [lines.endsDocument marker]
    · rwa [lines.onNewLine marker]
  | .nested more newLine inside valueRead => by
    refine .nested ?_ ?_ ?_ (valueRead.followedBy lines)
    · rwa [lines.endsDocument marker]
    · rwa [lines.onNewLine marker]
    · rwa [lines.column_token marker]
  | .sequence more newLine level opens itemsRead => by
    refine .sequence ?_ ?_ ?_ ?_ (itemsRead.followedBy lines)
    · rwa [lines.endsDocument marker]
    · rwa [lines.onNewLine marker]
    · rwa [lines.column_token marker]
    · rwa [lines.opensItem marker]

theorem ReadsItems.followedBy {column : Nat} {cur last : Cursor} {is : List Item}
    (lines : cur.WholeLines) :
    ReadsItems column cur is last →
      ReadsItems column (cur.followedBy next) is (last.followedBy next)
  | .last found dash closed valueRead ahead => by
    obtain ⟨dash, closed, behind⟩ := dash_followedBy (lines.of_token found) dash closed next
    have value := valueRead.followedBy behind
    have linesMid := behind.takes valueRead.takes
    exact .last (lines.token_of_token marker found) dash closed value
      (linesMid.nextItem_eq_none marker ahead)
  | .more found dash closed valueRead ahead others => by
    obtain ⟨dash, closed, behind⟩ := dash_followedBy (lines.of_token found) dash closed next
    have value := valueRead.followedBy behind
    have linesMid := behind.takes valueRead.takes
    exact .more (lines.token_of_token marker found) dash closed value
      (linesMid.nextItem_eq_some marker ahead) (others.followedBy linesMid)

theorem ReadsItemValue.followedBy {column : Nat} {cur last : Cursor} {v : Value}
    (lines : cur.WholeLines) :
    ReadsItemValue column cur v last →
      ReadsItemValue column (cur.followedBy next) v (last.followedBy next)
  | .absent empty ahead => by
    refine .absent empty ?_
    rwa [lines.endsDocument marker, lines.onNewLine marker, lines.column_token marker]
  | .value more inside valueRead => by
    refine .value ?_ ?_ (valueRead.followedBy lines)
    · rwa [lines.endsDocument marker]
    · rwa [lines.onNewLine marker, lines.column_token marker]

end

theorem ReadsBody.followedBy {cur last : Cursor} {v : Value} (lines : cur.WholeLines)
    (h : ReadsBody cur v last) : ReadsBody (cur.followedBy next) v (last.followedBy next) := by
  cases h with
  | absent empty ends => exact .absent empty (by rwa [lines.endsDocument marker])
  | value more valueRead =>
    exact .value (by rwa [lines.endsDocument marker]) (valueRead.followedBy marker lines)

theorem readDocumentStart_followedBy {cur last : Cursor} {opening : Option Text}
    (lines : cur.WholeLines) (more : cur.token.atEnd = false)
    (h : readDocumentStart cur = (opening, last)) :
    readDocumentStart (cur.followedBy next) = (opening, last.followedBy next) := by
  rw [readDocumentStart_eq] at h ⊢
  rw [lines.atDocumentStart marker more]
  rcases h with ⟨start, rfl, rfl⟩ | ⟨notStart, rfl, rfl⟩
  · have three := opensDocument_eq (Bool.and_eq_true_iff.mp start).2
    refine .inl ⟨start, ?_, ?_⟩
    · rw [lines.token_followedBy marker]
    · rw [lines.token_followedBy marker]
      show _ = Cursor.past _ _ ((cur.token.here.rest ++ next).drop 3)
      rw [three]
      rfl
  · exact .inr ⟨notStart, rfl, rfl⟩

theorem readDocumentEnd_followedBy {cur last : Cursor} {tail : Text} {marked : Bool}
    (lines : cur.WholeLines) (h : readDocumentEnd cur = .ok ((tail, marked), last)) :
    readDocumentEnd (cur.followedBy next) = .ok ((tail, marked), last.followedBy next) := by
  rw [readDocumentEnd_eq_ok] at h ⊢
  rw [lines.atDocumentEnd marker, lines.endsDocument marker, lines.token_followedBy marker]
  obtain ⟨rfl, ⟨rfl, ending, rfl⟩ | ⟨rfl, notEnd, ends, rfl⟩⟩ := h
  · have three := closesDocument_eq (Bool.and_eq_true_iff.mp ending).2
    refine ⟨rfl, .inl ⟨rfl, ending, ?_⟩⟩
    show _ = Cursor.past _ _ ((cur.token.here.rest ++ next).drop 3)
    rw [three]
    rfl
  · exact ⟨rfl, .inr ⟨rfl, notEnd, ends, rfl⟩⟩

/-- A document that has begun is read again in front of the start of another. -/
theorem ReadsDocument.followedBy {cur last : Cursor} {d : Document} (lines : cur.WholeLines)
    (more : cur.token.atEnd = false) (h : ReadsDocument cur d last) :
    ReadsDocument (cur.followedBy next) d (last.followedBy next) := by
  cases h with
  | document start lead explicitStart bodyRead ending =>
    have linesBody := lines.takes (readDocumentStart_takes start)
    have linesTail := linesBody.takes bodyRead.takes
    exact .document (readDocumentStart_followedBy marker lines more start) lead explicitStart
      (bodyRead.followedBy marker linesBody) (readDocumentEnd_followedBy marker linesTail ending)

end Marker

end ConfigTree.Yaml
