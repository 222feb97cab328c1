import ConfigTree.Proofs.Yaml.ByOffset.Scanning
import ConfigTree.Proofs.Yaml.Lossless

/-!
# Offsets and cursors

An offset is that of a cursor where the text in front of the cursor has as many bytes. What the
readers by offsets see there is what the cursor has ahead, so slices between two such offsets exist
and what comes next is the token ahead.
-/

namespace ConfigTree.Yaml.ByOffset

/-- The offset of a cursor in a text. -/
def At (text : Text) (pos : Nat) (cur : Cursor) : Prop :=
  ∃ before, (Cursor.start text).Takes before cur ∧ pos = Text.size before

namespace At

variable {text : Text} {pos : Nat} {cur last : Cursor}

theorem start (text : Text) : At text 0 (.start text) := ⟨[], .refl _, rfl⟩

theorem takes {taken : Text} (h : At text pos cur) (ahead : cur.Takes taken last) :
    At text (pos + taken.size) last := by
  obtain ⟨before, reached, rfl⟩ := h
  exact ⟨before ++ taken, reached.trans ahead, (Text.size_append _ _).symm⟩

theorem size_eq (h : At text pos cur) : pos + Text.size cur.rest = text.size := by
  obtain ⟨before, reached, rfl⟩ := h
  rw [← Text.size_append, ← reached.rest_eq, Cursor.rest_start]

theorem le_size (h : At text pos cur) : pos ≤ text.size := h.size_eq ▸ Nat.le_add_right _ _

/-- The end of the text is where nothing is left. -/
theorem atEnd_eq (h : At text pos cur) : decide (text.size ≤ pos) = cur.rest.isEmpty := by
  have size := h.size_eq
  cases rest : cur.rest with
  | nil =>
    rw [rest, Text.size_nil] at size
    exact decide_eq_true (by omega)
  | cons c t =>
    have more := Text.size_pos (List.cons_ne_nil c t)
    rw [rest] at size
    exact decide_eq_false (by omega)

/-- Where less is left is further on. -/
theorem lt {pos' : Nat} (h : At text pos cur) (h' : At text pos' last)
    (shorter : last.rest.length < cur.rest.length) : pos < pos' := by
  have size := h.size_eq
  have size' := h'.size_eq
  obtain ⟨before, reached, rfl⟩ := h
  obtain ⟨before', reached', rfl⟩ := h'
  obtain ⟨taken, whole⟩ : last.rest <:+ cur.rest :=
    List.suffix_of_suffix_length_le ⟨before', reached'.rest_eq.symm⟩ ⟨before, reached.rest_eq.symm⟩
      (Nat.le_of_lt shorter)
  have nonempty : taken ≠ [] := by
    rintro rfl
    rw [← whole, List.nil_append] at shorter
    exact absurd shorter (Nat.lt_irrefl _)
  have more := Text.size_pos nonempty
  rw [← whole, Text.size_append] at size
  omega

theorem bytesFrom_eq (h : At text pos cur) : bytesFrom text pos = Text.utf8 cur.rest := by
  obtain ⟨before, reached, rfl⟩ := h
  have whole : text = before ++ cur.rest := reached.rest_eq
  rw [bytesFrom, whole, Text.utf8_append, Text.size, List.drop_left]

/-- The byte at an offset is the next character, or belongs to a longer one. -/
theorem byteAt_cases (h : At text pos cur) :
    byteAt text pos = cur.rest.head? ∨
      byteAt text pos = none ∧ ∃ c t, cur.rest = c :: t ∧ 128 ≤ c.toNat := by
  rw [byteAt, h.bytesFrom_eq]
  cases rest : cur.rest with
  | nil => exact .inl rfl
  | cons c t =>
    rw [Text.utf8_cons]
    rcases utf8EncodeChar_cases c with ⟨b, bytes, same⟩ | ⟨wide, large⟩
    · rw [bytes]
      exact .inl same
    · obtain ⟨b, bs, bytes⟩ := List.exists_cons_of_ne_nil (utf8EncodeChar_ne_nil c)
      have first := wide b (bytes ▸ List.mem_cons_self)
      rw [bytes]
      exact .inr ⟨first, c, t, rfl, large⟩

theorem byteAt_eq_some {c : Char} (h : At text pos cur) (narrow : c.toNat < 128) :
    byteAt text pos = some c ↔ cur.rest.head? = some c := by
  rcases h.byteAt_cases with same | ⟨none, d, t, rest, large⟩
  · rw [same]
  · have other : d ≠ c := ne_of_wide large narrow
    rw [none, rest]
    simp [other]

theorem byteAt_cons {c d : Char} {t : Text} (h : At text pos cur) (rest : cur.rest = c :: t)
    (narrow : d.toNat < 128) : byteAt text pos = some d ↔ c = d := by
  rw [h.byteAt_eq_some narrow, rest, List.head?_cons, Option.some_inj]

theorem blankOrEndAt_eq (h : At text pos cur) : blankOrEndAt text pos = blankOrEnd cur.rest := by
  rw [blankOrEndAt, h.bytesFrom_eq]
  cases cur.rest with
  | nil => rfl
  | cons c t =>
    rw [Text.utf8_cons, blankOrEnd]
    rcases utf8EncodeChar_cases c with ⟨b, bytes, same⟩ | ⟨wide, large⟩
    · rw [bytes]
      exact isBlankByte_of_ascii same
    · obtain ⟨b, bs, bytes⟩ := List.exists_cons_of_ne_nil (utf8EncodeChar_ne_nil c)
      have first := wide b (bytes ▸ List.mem_cons_self)
      rw [bytes, isBlank_of_wide large]
      exact isBlankByte_of_none first

/-- Behind a character of one byte. -/
theorem succ {c : Char} {t : Text} (h : At text pos cur) (rest : cur.rest = c :: t)
    (one : c.utf8Size = 1) : At text (pos + 1) (cur.past [c] t) := by
  have behind := h.takes (.past (show cur.rest = [c] ++ t from rest))
  rwa [size_singleton, one] at behind

theorem dashAt_eq (h : At text pos cur) : dashAt text pos = opensItem cur.rest := by
  rw [dashAt]
  by_cases dash : cur.rest.head? = some '-'
  · obtain ⟨t, rest⟩ := List.head?_eq_some_iff.mp dash
    rw [(h.byteAt_eq_some (by decide)).mpr dash, (h.succ rest rfl).blankOrEndAt_eq, rest]
    rfl
  · have other := mt (h.byteAt_eq_some (by decide)).mp dash
    rw [beq_eq_false_iff_ne.mpr other, Bool.false_and]
    unfold opensItem
    split
    · rename_i rest
      rw [rest] at dash
      contradiction
    · rfl

theorem unsupportedAt_eq (h : At text pos cur) :
    unsupportedAt text pos = unsupported cur.rest := by
  rw [unsupportedAt]
  rcases h.byteAt_cases with same | ⟨none, d, t, rest, large⟩
  · rw [same]
    cases rest : cur.rest with
    | nil => rfl
    | cons c t =>
      rw [List.head?_cons]
      by_cases question : c = '?'
      · subst question
        have behind := (h.succ rest rfl).blankOrEndAt_eq
        rw [Cursor.rest_past] at behind
        rw [unsupported, ← behind]
        rfl
      · unfold unsupported
        split <;> simp_all
  · rw [none, rest]
    show Option.none = unsupported (d :: t)
    unfold unsupported
    split
    case h_8 => rfl
    all_goals
      rename_i same
      cases same
      contradiction

/-- What is taken from a cursor is the slice behind its offset. -/
theorem slice_eq {taken : Text} (h : At text pos cur) (ahead : cur.Takes taken last) :
    slice text pos (pos + taken.size) = .ok taken := by
  obtain ⟨before, reached, rfl⟩ := h
  have whole : text = before ++ taken ++ last.rest := (reached.trans ahead).rest_eq
  have sliced : text.slice? before.size (before.size + taken.size) = some taken :=
    Text.slice?_eq_some.mpr ⟨before, last.rest, whole, rfl, (Text.size_append _ _).symm⟩
  rw [slice, sliced]

theorem slice_rest (h : At text pos cur) : slice text pos text.size = .ok cur.rest := by
  have ahead : cur.Takes cur.rest (cur.past cur.rest []) := .past (List.append_nil _).symm
  rw [← h.size_eq]
  exact h.slice_eq ahead

/-- The text in front of an offset. -/
theorem exists_before (h : At text pos cur) :
    ∃ before, text = before ++ cur.rest ∧ slice text 0 pos = .ok before ∧
      pos = Text.size before ∧ cur.column = columnAfter 0 before := by
  obtain ⟨before, reached, rfl⟩ := h
  have sliced := (At.start text).slice_eq reached
  rw [Nat.zero_add] at sliced
  exact ⟨before, reached.rest_eq, sliced, rfl, congrArg Cursor.column reached.2⟩

theorem lineStart_eq (h : At text pos cur) :
    ∃ start, lineStart text pos = .ok start ∧ pos - start = cur.column := by
  obtain ⟨before, -, sliced, rfl, column⟩ := h.exists_before
  refine ⟨lastLineStart 0 0 (Text.utf8 before), ?_, ?_⟩
  · rw [lineStart, sliced]
    rfl
  · have distance := columnAfter_add_lastLineStart 0 0 before
    simp only [Nat.add_zero, Nat.zero_add] at distance
    rw [column]
    omega

theorem lineEnd_eq (h : At text pos cur) :
    lineEnd text pos = .ok (pos + Text.size (cur.rest.takeWhile fun c => c ≠ '\n')) := by
  rw [lineEnd, h.slice_rest, ← lineLength_utf8]
  rfl

/-- A refusal at an offset is one at its cursor. -/
theorem refuse_eq {α : Type} (h : At text pos cur) (problem : Problem) :
    refuse (α := α) text problem pos =
      .error (.refused ((Failure.mk problem cur).locate text)) := by
  obtain ⟨start, lineStart, column⟩ := h.lineStart_eq
  obtain ⟨before, whole, sliced, -⟩ := h.exists_before
  have feeds : text.lineFeeds = before.lineFeeds + Text.lineFeeds cur.rest := by
    rw [whole, Text.lineFeeds, List.count_append]
    rfl
  rw [refuse, Nat.min_eq_left h.le_size, sliced, lineStart]
  simp only [bind, Except.bind, Failure.locate, column, feeds, Nat.add_sub_cancel]

/-! ## Steps -/

theorem moveTo_eq {pos' : Nat} (h : At text pos' last) (le : pos ≤ pos') :
    moveTo text pos pos' = .ok ⟨pos', le, h.le_size⟩ := dif_pos ⟨le, h.le_size⟩

theorem advance_eq {pos' : Nat} (h : At text pos' last) (lt : pos < pos') :
    advance text pos pos' = .ok ⟨pos', lt, h.le_size⟩ := dif_pos ⟨lt, h.le_size⟩

theorem takeUntil_eq {taken : Text} (h : At text pos cur) (ahead : cur.Takes taken last) :
    ∃ within, takeUntil text pos (pos + taken.size) = .ok (taken, ⟨pos + taken.size, within⟩) := by
  refine ⟨⟨Nat.le_add_right _ _, (h.takes ahead).le_size⟩, ?_⟩
  rw [takeUntil, h.slice_eq ahead, (h.takes ahead).moveTo_eq (Nat.le_add_right _ _)]
  rfl

theorem takeInlineBlanks_eq {gap t : Text} (h : At text pos cur)
    (cut : Text.span isInlineBlank cur.rest = (gap, t)) :
    takeInlineBlanks text pos = .ok (gap, pos + gap.size) := by
  obtain ⟨rfl, rfl⟩ := Prod.mk.inj cut
  have ahead : cur.Takes (cur.rest.takeWhile isInlineBlank)
      (cur.past (cur.rest.takeWhile isInlineBlank) (cur.rest.dropWhile isInlineBlank)) :=
    .past List.takeWhile_append_dropWhile.symm
  rw [takeInlineBlanks, h.bytesFrom_eq, inlineBlanks_utf8, h.slice_eq ahead]
  rfl

/-- The byte in front of an offset tells whether a comment may open there. -/
theorem mayOpen_eq (h : At text pos cur) :
    (pos == 0 || (bytesFrom text (pos - 1)).head?.any isBlankByte) = cur.commentMayOpen := by
  obtain ⟨before, reached, rfl⟩ := h
  have mayOpen : cur.commentMayOpen = openAfter true before :=
    congrArg Cursor.commentMayOpen reached.2
  rcases List.eq_nil_or_concat before with rfl | ⟨s, c, rfl⟩
  · exact mayOpen.symm
  · rw [List.concat_eq_append, openAfter_append] at mayOpen
    obtain ⟨bs, b, bytes⟩ := (List.eq_nil_or_concat (String.utf8EncodeChar c)).resolve_left
      (utf8EncodeChar_ne_nil c)
    rw [List.concat_eq_append] at bytes
    have blank := isBlankByte_of_mem (show b ∈ String.utf8EncodeChar c by simp [bytes])
    have whole : Text.utf8 text = (Text.utf8 s ++ bs) ++ (b :: Text.utf8 cur.rest) := by
      rw [show text = s.concat c ++ cur.rest from reached.rest_eq]
      simp [bytes]
    have size : Text.size (s.concat c) - 1 = (Text.utf8 s ++ bs).length := by
      simp [Text.size, bytes]
    have more : (Text.size (s.concat c) == 0) = false := by
      rw [beq_eq_false_iff_ne, Text.size]
      simp [bytes]
    rw [mayOpen, bytesFrom, size, whole, List.drop_left, more]
    exact blank

end At

/-- What comes next at an offset is the token ahead. -/
structure Shows (text : Text) (pos : Nat) (next : Next) (tok : Token) : Prop where
  offset : next.offset = pos + tok.lead.size
  place : At text next.offset tok.here
  column : next.column = tok.column
  newLine : next.newLine = tok.onNewLine
  atEnd : next.atEnd = tok.atEnd

/-- What stands before the token ahead is taken whole. -/
theorem Shows.takeUntil_eq {text : Text} {pos : Nat} {next : Next} {cur : Cursor}
    (shows : Shows text pos next cur.token) (h : At text pos cur) :
    ∃ within, takeUntil text pos next.offset = .ok (cur.token.lead, ⟨next.offset, within⟩) := by
  rw [shows.offset]
  exact h.takeUntil_eq cur.takes_token

theorem At.peek_eq {text : Text} {pos : Nat} {cur : Cursor} (h : At text pos cur) :
    ∃ next, peek text pos = .ok next ∧ Shows text pos next cur.token := by
  have place := h.takes cur.takes_token
  obtain ⟨start, lineStart, column⟩ := place.lineStart_eq
  have skipped : skipTrivia cur.commentMayOpen false (Text.utf8 cur.rest) =
      (cur.token.lead.size, cur.token.onNewLine) := skipTrivia_utf8 _ _ _
  refine ⟨⟨pos + cur.token.lead.size, cur.token.column, cur.token.onNewLine, cur.token.atEnd⟩, ?_,
    ⟨rfl, place, rfl, rfl, rfl⟩⟩
  rw [peek, h.mayOpen_eq, h.bytesFrom_eq, skipped]
  simp only [lineStart, bind, Except.bind]
  rw [column, place.atEnd_eq]
  rfl

theorem opensDocument_eq_isPrefixOf (t : Text) :
    opensDocument t = (['-', '-', '-'].isPrefixOf t && blankOrEnd (t.drop 3)) := by
  unfold opensDocument
  split
  · rfl
  · rename_i other
    refine (Bool.and_eq_false_imp.mpr fun marker => ?_).symm
    obtain ⟨after, rfl⟩ := List.isPrefixOf_iff_prefix.mp marker
    exact absurd rfl (other after)

theorem closesDocument_eq_isPrefixOf (t : Text) :
    closesDocument t = (['.', '.', '.'].isPrefixOf t && blankOrEnd (t.drop 3)) := by
  unfold closesDocument
  split
  · rfl
  · rename_i other
    refine (Bool.and_eq_false_imp.mpr fun marker => ?_).symm
    obtain ⟨after, rfl⟩ := List.isPrefixOf_iff_prefix.mp marker
    exact absurd rfl (other after)

/-- Behind a marker that is there its end is looked for at the right offset. -/
theorem At.marker_eq {text : Text} {pos : Nat} {cur : Cursor} (h : At text pos cur) (marker : Text)
    (narrow : marker.size = marker.length) :
    (marker.isPrefixOf cur.rest && blankOrEndAt text (pos + marker.length)) =
      (marker.isPrefixOf cur.rest && blankOrEnd (cur.rest.drop marker.length)) := by
  cases found : marker.isPrefixOf cur.rest with
  | false => rfl
  | true =>
    obtain ⟨after, whole⟩ := List.isPrefixOf_iff_prefix.mp found
    have behind := (h.takes (.past whole.symm)).blankOrEndAt_eq
    rw [narrow, Cursor.rest_past] at behind
    rw [behind, ← whole, List.drop_left]

namespace Shows

variable {text : Text} {pos : Nat} {next : Next} {tok : Token}

theorem isMarkerNext_eq (h : Shows text pos next tok) {marker : Text} (nonempty : marker ≠ [])
    (narrow : marker.size = marker.length) :
    isMarkerNext text marker next = .ok (tok.column == 0 &&
      (marker.isPrefixOf tok.here.rest && blankOrEnd (tok.here.rest.drop marker.length))) := by
  rw [isMarkerNext, h.atEnd, h.column]
  split
  · rename_i ahead
    rw [h.place.slice_rest, ahead.2]
    exact congrArg Except.ok (h.place.marker_eq marker narrow)
  · rename_i notAhead
    congr 1
    refine (Bool.and_eq_false_imp.mpr fun margin => ?_).symm
    have atEnd : tok.atEnd = true := by
      apply eq_true_of_ne_false
      intro more
      exact notAhead ⟨more, beq_iff_eq.mp margin⟩
    obtain ⟨c, marker, rfl⟩ := List.exists_cons_of_ne_nil nonempty
    rw [Token.rest_eq_nil atEnd]
    rfl

theorem isMarkerNext_start (h : Shows text pos next tok) :
    isMarkerNext text ['-', '-', '-'] next = .ok tok.atDocumentStart := by
  rw [h.isMarkerNext_eq (by simp) rfl, Token.atDocumentStart, opensDocument_eq_isPrefixOf]
  rfl

theorem isMarkerNext_end (h : Shows text pos next tok) :
    isMarkerNext text ['.', '.', '.'] next = .ok tok.atDocumentEnd := by
  rw [h.isMarkerNext_eq (by simp) rfl, Token.atDocumentEnd, closesDocument_eq_isPrefixOf]
  rfl

theorem endsDocument_eq (h : Shows text pos next tok) :
    endsDocument text next = .ok tok.endsDocument := by
  rw [endsDocument, h.atEnd, h.isMarkerNext_start, h.isMarkerNext_end, Token.endsDocument,
    Token.atMarker]
  cases tok.atEnd <;> cases tok.atDocumentStart <;> rfl

end Shows

/-- A step that succeeds hands its result on. -/
theorem ok_bind {ε α β : Type} (found : α) (next : α → Except ε β) :
    (Except.ok found >>= next) = next found := rfl

/-- Reading by offsets comes to what reading by cursors comes to: to a result that is the `same`, or
to the same refusal, which has a place in the text. It does not go wrong, and neither does the other
run out of steps. -/
def AgreesBy (text : Text) {α β : Type} (same : α → β → Prop) :
    Except Stop α → Except Failure β → Prop
  | .ok found, .ok found' => same found found'
  | .error (.refused e), .error f =>
    e = f.locate text ∧ f.problem ≠ .outOfSteps ∧ ∃ pos, At text pos f.here
  | _, _ => False

namespace AgreesBy

variable {α β γ δ : Type} {text : Text} {pos : Nat} {cur : Cursor} {same : α → β → Prop}
  {same' : γ → δ → Prop}

theorem refuse (h : At text pos cur) {problem : Problem} (real : problem ≠ .outOfSteps) :
    AgreesBy text same (refuse text problem pos) (fail problem cur) := by
  rw [h.refuse_eq]
  exact ⟨rfl, real, pos, h⟩

theorem cases {r : Except Stop α} {r' : Except Failure β} (h : AgreesBy text same r r') :
    (∃ found found', r = .ok found ∧ r' = .ok found' ∧ same found found') ∨
      ∃ f, r = .error (.refused (f.locate text)) ∧ r' = .error f ∧ f.problem ≠ .outOfSteps ∧
        ∃ pos, At text pos f.here := by
  match r, r', h with
  | .ok found, .ok found', related => exact .inl ⟨found, found', rfl, rfl, related⟩
  | .error (.refused _), .error f, ⟨rfl, real, place⟩ => exact .inr ⟨f, rfl, rfl, real, place⟩

theorem bind {r : Except Stop α} {r' : Except Failure β} {k : α → Except Stop γ}
    {k' : β → Except Failure δ} (first : AgreesBy text same r r')
    (next : ∀ found found', r' = .ok found' → same found found' →
      AgreesBy text same' (k found) (k' found')) : AgreesBy text same' (r >>= k) (r' >>= k') := by
  rcases first.cases with ⟨found, found', rfl, rfl, related⟩ | ⟨f, rfl, rfl, real, place⟩
  · exact next found found' rfl related
  · exact ⟨rfl, real, place⟩

end AgreesBy

/-- Two readers agree where they find the same and get to the offset of the same cursor. -/
def Agrees (text : Text) {α : Type} :
    Except Stop (α × Nat) → Except Failure (α × Cursor) → Prop :=
  AgreesBy text fun (found, pos) (found', cur) => found = found' ∧ At text pos cur

namespace Agrees

variable {α β : Type} {text : Text} {pos : Nat} {cur : Cursor}

theorem ok (found : α) (h : At text pos cur) : Agrees text (.ok (found, pos)) (.ok (found, cur)) :=
  ⟨rfl, h⟩

theorem refuse (h : At text pos cur) {problem : Problem} (real : problem ≠ .outOfSteps) :
    Agrees (α := α) text (refuse text problem pos) (fail problem cur) :=
  AgreesBy.refuse h real

theorem bind {r : Except Stop (α × Nat)} {r' : Except Failure (α × Cursor)}
    {k : α × Nat → Except Stop (β × Nat)} {k' : α × Cursor → Except Failure (β × Cursor)}
    (first : Agrees text r r')
    (next : ∀ found pos last, r' = .ok (found, last) → At text pos last →
      Agrees text (k (found, pos)) (k' (found, last))) : Agrees text (r >>= k) (r' >>= k') := by
  refine AgreesBy.bind first ?_
  rintro ⟨found, pos⟩ ⟨_, last⟩ read ⟨rfl, place⟩
  exact next found pos last read place

end Agrees

end ConfigTree.Yaml.ByOffset
