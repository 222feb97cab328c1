import ConfigTree.Proofs.Yaml.ByOffset.Block

/-!
# Reading by offsets

Reading a text by offsets never goes wrong: all slices that are taken exist, no step leads back, and
every round that has something to read takes some of it, so reading ends. It comes to what reading
by cursors comes to, and a text that is refused is refused at a place in it.
-/

namespace ConfigTree.Yaml.ByOffset

variable {text : Text} {pos : Nat} {next : Next} {cur : Cursor}

theorem readDocumentStart_eq (h : At text pos cur) :
    ∃ pos', readDocumentStart text pos = .ok ((Yaml.readDocumentStart cur).1, pos') ∧
      At text pos' (Yaml.readDocumentStart cur).2 := by
  obtain ⟨next, peeked, shows⟩ := h.peek_eq
  obtain ⟨within, taken⟩ := shows.takeUntil_eq h
  rw [readDocumentStart, peeked, ok_bind, shows.isMarkerNext_start, ok_bind, Yaml.readDocumentStart]
  cases opens : cur.token.atDocumentStart with
  | false => exact ⟨pos, rfl, h⟩
  | true =>
    rw [Token.atDocumentStart, Bool.and_eq_true] at opens
    have behind := shows.place.takes (.past (opensDocument_eq opens.2))
    rw [if_pos rfl, taken]
    exact ⟨next.offset + 3, rfl, behind⟩

theorem readBody_agrees (h : At text pos cur) :
    Agrees text (readBody text pos) (Yaml.readBody cur) := by
  obtain ⟨next, peeked, shows⟩ := h.peek_eq
  rw [readBody, peeked, ok_bind, shows.endsDocument_eq, ok_bind, Yaml.readBody]
  split
  · exact .ok _ h
  · exact (blockAgrees text _).value rfl h shows (by unfold stepBudget; omega)

theorem readDocumentEnd_agrees (h : At text pos cur) :
    Agrees text (readDocumentEnd text pos) (Yaml.readDocumentEnd cur) := by
  obtain ⟨next, peeked, shows⟩ := h.peek_eq
  obtain ⟨within, taken⟩ := shows.takeUntil_eq h
  rw [readDocumentEnd, peeked, ok_bind, shows.isMarkerNext_end, ok_bind, Yaml.readDocumentEnd]
  cases closes : cur.token.atDocumentEnd with
  | true =>
    rw [Token.atDocumentEnd, Bool.and_eq_true] at closes
    have behind := shows.place.takes (.past (closesDocument_eq closes.2))
    simp only [if_true, taken, ok_bind]
    exact .ok _ behind
  | false =>
    simp only [Bool.false_eq_true, if_false, shows.endsDocument_eq, taken, ok_bind]
    split
    · exact .ok _ shows.place
    · exact .refuse shows.place (by simp)

theorem readDocument_agrees (h : At text pos cur) :
    Agrees text (readDocument text pos) (Yaml.readDocument cur) := by
  obtain ⟨pos₁, opened, atBody⟩ := readDocumentStart_eq h
  rw [readDocument, Yaml.readDocument, opened, ok_bind]
  refine (readBody_agrees atBody).bind ?_
  intro body pos₂ mid _ atEnd
  refine (readDocumentEnd_agrees atEnd).bind ?_
  rintro ⟨tail, marked⟩ pos₃ last _ behind
  exact .ok _ behind

/-- A document takes something of the text unless there is nothing left. -/
theorem length_lt_of_readDocument {last : Cursor} {d : Document}
    (read : Yaml.readDocument cur = .ok (d, last)) (more : cur.rest ≠ []) :
    last.rest.length < cur.rest.length := by
  have document := readsDocument_of_run read rfl
  cases atEnd : last.token.atEnd with
  | false => exact document.length_lt atEnd
  | true =>
    cases document with
    | document start _ _ bodyRead ending =>
      obtain ⟨-, ⟨marked, -, -⟩ | ⟨-, -, -, atToken⟩⟩ := readDocumentEnd_eq_ok.mp ending
      · -- The end is marked, and the marker has three characters.
        have before := (readDocumentStart_takes start).length_le
        have inside := bodyRead.takes.length_le
        have closed := readDocumentEnd_takes ending
        rw [marked] at closed
        have after := closed.length_lt (by simp)
        omega
      · have nothing := Token.rest_eq_nil atEnd
        rw [atToken, Cursor.token_token] at nothing
        rw [atToken, show _ = [] from nothing]
        exact List.length_pos_iff.mpr more

theorem readTrailer_eq (closed : Bool) (h : At text pos cur)
    (shows : Shows text pos next cur.token) :
    readTrailer text closed next pos = .ok (if closed then cur.token.lead else []) := by
  obtain ⟨within, taken⟩ := shows.takeUntil_eq h
  cases closed with
  | false => rfl
  | true =>
    rw [readTrailer, if_pos rfl, taken]
    rfl

theorem readDocuments_agrees {steps : Nat} (h : At text pos cur)
    (more : text ≠ [] → cur.rest ≠ []) (enough : cur.rest.length < steps) :
    AgreesBy text Eq (readDocuments text pos) (Yaml.readDocuments steps cur) := by
  induction steps generalizing pos cur with
  | zero => omega
  | succ steps ih =>
    rw [readDocuments, Yaml.readDocuments]
    refine AgreesBy.bind (readDocument_agrees h) ?_
    rintro ⟨d, pos'⟩ ⟨_, last⟩ read ⟨rfl, place⟩
    obtain ⟨next, peeked, shows⟩ := place.peek_eq
    have forward (nonempty : text ≠ []) : pos < pos' :=
      h.lt place (length_lt_of_readDocument read (more nonempty))
    simp only [peeked, ok_bind, shows.atEnd]
    cases atEnd : last.token.atEnd with
    | true =>
      have taken : pos < pos' ∨ text = [] := by
        by_cases empty : text = []
        · exact .inr empty
        · exact .inl (forward empty)
      simp only [if_true, readTrailer_eq _ place shows, ok_bind, if_pos taken]
      rfl
    | false =>
      have shorter := (readsDocument_of_run read rfl).length_lt atEnd
      have rest : text ≠ [] → last.rest ≠ [] := by
        intro _ nothing
        rw [Token.atEnd, List.isEmpty_eq_false_iff] at atEnd
        have token := last.lead_append_token
        rw [nothing] at token
        exact atEnd (List.append_eq_nil_iff.mp token).2
      simp only [Bool.false_eq_true, if_false, place.advance_eq (h.lt place shorter), ok_bind]
      refine AgreesBy.bind (ih place rest (by omega)) ?_
      rintro ⟨ds, trailer⟩ _ _ rfl
      rfl

/-- The place of an error is an offset in the text or at its end: the error is told with the line of
that offset and with its distance from the start of that line. -/
def IsWithin (text : Text) (e : SyntaxError) : Prop :=
  ∃ offset ≤ text.size, ∃ before, text.slice? 0 offset = some before ∧
    e.line = before.lineFeeds + 1 ∧ e.column = columnAfter 0 before + 1

theorem isWithin_locate {f : Failure} (h : At text pos f.here) : IsWithin text (f.locate text) := by
  obtain ⟨before, whole, -, offset, column⟩ := h.exists_before
  have sliced : text.slice? 0 pos = some before :=
    Text.slice?_eq_some.mpr ⟨[], f.here.rest, whole, rfl, offset⟩
  refine ⟨pos, h.le_size, before, sliced, ?_, congrArg (· + 1) column⟩
  have feeds : text.lineFeeds = before.lineFeeds + Text.lineFeeds f.here.rest := by
    rw [Text.lineFeeds, whole, List.count_append]
    rfl
  rw [Failure.locate, feeds, Nat.add_sub_cancel]

/-- For every text there is a stream, or the text is refused at a place in it: no reader goes wrong
on the way, and none runs out of steps. -/
theorem parse_ok_or_refused (text : Text) :
    (∃ s, parse text = .ok s ∧ Yaml.parse text = .ok s) ∨
      ∃ e, parse text = .error (.refused e) ∧ Yaml.parse text = .error e ∧
        e.problem ≠ .outOfSteps ∧ IsWithin text e := by
  have agree : AgreesBy text Eq (readDocuments text 0)
      (Yaml.readDocuments (stepBudget text) (.start text)) :=
    readDocuments_agrees (.start text) (fun nonempty => nonempty)
      (by rw [Cursor.rest_start, stepBudget]; omega)
  unfold parse Yaml.parse readStream
  rcases agree.cases with ⟨found, _, read, read', rfl⟩ | ⟨f, refused, refused', real, pos, place⟩
  · rw [read, read']
    exact .inl ⟨_, rfl, rfl⟩
  · rw [refused, refused']
    exact .inr ⟨f.locate text, rfl, rfl, real, isWithin_locate place⟩

/-- The only round over the empty text reads an empty document, and the round that finds the end of
a block collection reads nothing. -/
theorem rounds_takeNothing :
    (∃ d, readDocument [] 0 = .ok (d, 0) ∧ readDocuments [] 0 = .ok ([d], [])) ∧
      readEntries ['a', ':'] 0 false 2 = .ok ([], 2) ∧ readItems ['-'] 0 false 1 = .ok ([], 1) := by
  refine ⟨⟨⟨.unnumbered, [], false, .empty, [], false⟩, rfl, ?_⟩, ?_, ?_⟩
  · rw [readDocuments]
    rfl
  · rw [readEntries]
    rfl
  · rw [readItems]
    rfl

end ConfigTree.Yaml.ByOffset
