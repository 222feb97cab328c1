import ConfigTree.Proofs.Yaml.ByOffset.Cursors
import ConfigTree.Proofs.Yaml.Stopping

/-!
# Scalars and keys by offsets

Scalars end at the offsets at which they end in the text, so what is sliced out between their ends
is their text, and a key is found where there is one.
-/

namespace ConfigTree.Yaml.ByOffset

variable {text : Text} {pos : Nat} {cur here : Cursor}

theorem unsupported_ne_outOfSteps {t : Text} {problem : Problem}
    (h : unsupported t = some problem) : problem ≠ .outOfSteps := by
  unfold unsupported at h
  grind

/-- The style of a scalar in these quotes. -/
def quotedStyle (quote : Char) : ScalarStyle :=
  if quote = '\'' then .singleQuoted else .doubleQuoted

/-- A quote that opens is refused where the text has none that closes it, and else leads to the
offset behind that. -/
theorem At.quotedEnd_cases {quote : Char} {t : Text} (h : At text pos cur)
    (isQuote : quote = '\'' ∨ quote = '"') (rest : cur.rest = quote :: t) :
    (quotedEnd text pos = refuse text .unterminatedQuote pos ∧
      ∀ inFlow, scanScalar inFlow cur.rest = none) ∨
    ∃ inner after : Text, cur.rest = quote :: (inner ++ quote :: after) ∧
      quotedEnd text pos = .ok (pos + 1 + inner.size + 1) ∧
      ∀ inFlow, scanScalar inFlow cur.rest = some ⟨quotedStyle quote, inner, after⟩ := by
  rw [quotedEnd, h.bytesFrom_eq, rest]
  rcases isQuote with rfl | rfl
  · have bytes : Text.utf8 ('\'' :: t) = 39 :: Text.utf8 t := rfl
    simp only [bytes, show ascii? 39 = some '\'' by decide, if_true, singleQuotedEnd_utf8,
      scanScalar]
    cases inside : scanSingleQuoted t with
    | none => exact .inl ⟨rfl, fun _ => rfl⟩
    | some found =>
      obtain ⟨inner, after⟩ := found
      exact .inr ⟨inner, after, congrArg _ (scanSingleQuoted_eq inside), rfl, fun _ => rfl⟩
  · have bytes : Text.utf8 ('"' :: t) = 34 :: Text.utf8 t := rfl
    simp only [bytes, show ¬ ascii? 34 = some '\'' by decide, if_false, doubleQuotedEnd_utf8,
      scanScalar]
    cases inside : scanDoubleQuoted t with
    | none => exact .inl ⟨rfl, fun _ => rfl⟩
    | some found =>
      obtain ⟨inner, after⟩ := found
      exact .inr ⟨inner, after, congrArg _ (scanDoubleQuoted_eq inside), rfl, fun _ => rfl⟩

/-- Between two quotes. -/
theorem At.quoted {quote : Char} {inner after : Text} (h : At text pos cur)
    (one : quote.utf8Size = 1) (rest : cur.rest = quote :: (inner ++ quote :: after)) :
    slice text (pos + 1) (pos + 1 + inner.size + 1 - 1) = .ok inner ∧
      At text (pos + 1 + inner.size + 1) (cur.past (quote :: inner ++ [quote]) after) := by
  have inside := h.succ rest one
  constructor
  · exact inside.slice_eq (.past (show _ = inner ++ (quote :: after) from rfl))
  · have whole : cur.rest = (quote :: inner ++ [quote]) ++ after := by simp [rest]
    have behind := h.takes (.past whole)
    have size : pos + Text.size (quote :: inner ++ [quote]) = pos + 1 + inner.size + 1 := by
      simp [one]
      omega
    rwa [size] at behind

theorem plainEnd_eq {inFlow : Bool} (t : Text) :
    plainEnd inFlow false pos pos (Text.utf8 t) = pos + (scanPlain inFlow t).1.size := by
  rw [plainEnd_utf8, scanPlain]
  split
  · rename_i empty
    rw [empty]
    rfl
  · rfl

theorem readScalar_agrees_quoted {quote : Char} {lead t : Text} (inFlow : Bool)
    (h : At text pos cur) (ahead : cur.Takes lead here) (isQuote : quote = '\'' ∨ quote = '"')
    (rest : here.rest = quote :: t) :
    Agrees text (readScalar text inFlow (pos + lead.size) pos)
      (Yaml.readScalar inFlow ⟨lead, here⟩) := by
  have place := h.takes ahead
  obtain ⟨within, taken⟩ := h.takeUntil_eq ahead
  have narrow : quote.toNat < 128 := by rcases isQuote with rfl | rfl <;> decide
  have one : quote.utf8Size = 1 := by rcases isQuote with rfl | rfl <;> rfl
  have first : byteAt text (pos + lead.size) = some quote :=
    (place.byteAt_eq_some narrow).mpr (rest ▸ rfl)
  have supported : unsupported here.rest = none := by
    rw [rest]
    rcases isQuote with rfl | rfl <;> rfl
  simp only [readScalar, Yaml.readScalar, place.unsupportedAt_eq, supported, taken, bind,
    Except.bind, first, Option.some_inj, if_pos isQuote]
  rcases place.quotedEnd_cases isQuote rest with
    ⟨refused, scanned⟩ | ⟨inner, after, whole, ends, scanned⟩
  · simp only [refused, scanned, place.refuse_eq]
    exact ⟨rfl, by simp, _, place⟩
  · obtain ⟨sliced, behind⟩ := place.quoted one whole
    simp only [ends, scanned, sliced, behind.moveTo_eq (show pos + lead.size ≤ _ by omega)]
    rcases isQuote with rfl | rfl <;> exact .ok _ behind

theorem scanScalar_plain {inFlow : Bool} {t : Text} (single : t.head? ≠ some '\'')
    (double : t.head? ≠ some '"') :
    scanScalar inFlow t = some ⟨.plain, (scanPlain inFlow t).1, (scanPlain inFlow t).2⟩ := by
  unfold scanScalar
  split
  · contradiction
  · contradiction
  · rfl

theorem readScalar_agrees_plain {lead : Text} (inFlow : Bool) (h : At text pos cur)
    (ahead : cur.Takes lead here) (supported : unsupported here.rest = none)
    (single : here.rest.head? ≠ some '\'') (double : here.rest.head? ≠ some '"') :
    Agrees text (readScalar text inFlow (pos + lead.size) pos)
      (Yaml.readScalar inFlow ⟨lead, here⟩) := by
  have place := h.takes ahead
  obtain ⟨within, taken⟩ := h.takeUntil_eq ahead
  have notSingle := mt (place.byteAt_eq_some (show '\''.toNat < 128 by decide)).mp single
  have notDouble := mt (place.byteAt_eq_some (show '"'.toNat < 128 by decide)).mp double
  simp only [readScalar, Yaml.readScalar, place.unsupportedAt_eq, supported, taken, bind,
    Except.bind, notSingle, notDouble, or_self, if_false, place.bytesFrom_eq, plainEnd_eq,
    scanScalar_plain single double, true_and]
  have found : here.Takes (scanPlain inFlow here.rest).1
      (here.past _ (scanPlain inFlow here.rest).2) := .past (scanPlain_append inFlow here.rest).symm
  by_cases empty : (scanPlain inFlow here.rest).1 = []
  · simp only [empty, Text.size_nil, Nat.add_zero, if_true]
    exact .refuse place (by simp)
  · have more := Text.size_pos empty
    have behind := place.takes found
    simp only [empty, if_false, show ¬ pos + lead.size + (scanPlain inFlow here.rest).1.size =
      pos + lead.size by omega, place.slice_eq found, behind.moveTo_eq (Nat.le_add_right _ _)]
    exact .ok _ behind

/-- A scalar, behind what lies between it and the offset. -/
theorem readScalar_agrees {lead : Text} (inFlow : Bool) (h : At text pos cur)
    (ahead : cur.Takes lead here) :
    Agrees text (readScalar text inFlow (pos + lead.size) pos)
      (Yaml.readScalar inFlow ⟨lead, here⟩) := by
  cases found : unsupported here.rest with
  | some problem =>
    have place := h.takes ahead
    rw [readScalar, Yaml.readScalar, place.unsupportedAt_eq]
    simp only [found]
    exact .refuse place (unsupported_ne_outOfSteps found)
  | none =>
    by_cases single : here.rest.head? = some '\''
    · obtain ⟨t, rest⟩ := List.head?_eq_some_iff.mp single
      exact readScalar_agrees_quoted inFlow h ahead (.inl rfl) rest
    by_cases double : here.rest.head? = some '"'
    · obtain ⟨t, rest⟩ := List.head?_eq_some_iff.mp double
      exact readScalar_agrees_quoted inFlow h ahead (.inr rfl) rest
    exact readScalar_agrees_plain inFlow h ahead found single double

/-! ## Literal and folded scalars -/

/-- Lines, each behind the line feed in front of it. -/
def feedLines (lines : List Text) : Text := lines.flatMap ('\n' :: ·)

@[simp] theorem feedLines_cons (line : Text) (lines : List Text) :
    feedLines (line :: lines) = '\n' :: (line ++ feedLines lines) := rfl

theorem joinWith_eq_append_feedLines (header : Text) (lines : List Text) :
    Text.joinWith '\n' (header :: lines) = header ++ feedLines lines := by
  induction lines generalizing header with
  | nil => exact (List.append_nil _).symm
  | cons line lines ih => rw [Text.joinWith_cons_cons, ih, feedLines_cons]

/-- A line ends where the lines after it begin. -/
theorem takeWhile_append_feedLines {line : Text} (oneLine : '\n' ∉ line) (lines : List Text) :
    (line ++ feedLines lines).takeWhile (fun c => c ≠ '\n') = line := by
  have all : ∀ c ∈ line, decide (c ≠ '\n') = true := by
    intro c inside
    refine decide_eq_true ?_
    rintro rfl
    exact oneLine inside
  rw [List.takeWhile_append_of_pos all]
  cases lines with
  | nil => exact List.append_nil _
  | cons line' lines => exact List.append_nil _

/-- A marker is whole on its line. -/
theorem isMarker_append_feedLines (line : Text) (lines : List Text) :
    isMarker (line ++ feedLines lines) = isMarker line := by
  refine isMarker_of_firstWord (firstWord_append line ?_)
  cases lines <;> rfl

theorem indentation_eq_zero_of_isMarker {line : Text} (marker : isMarker line = true) :
    indentation line = 0 := by
  rw [isMarker, Bool.or_eq_true] at marker
  rcases marker with opens | closes
  · rw [opensDocument_eq opens]
    rfl
  · rw [closesDocument_eq closes]
    rfl

theorem At.markerAt_eq (h : At text pos cur) : markerAt text pos = .ok (isMarker cur.rest) := by
  rw [markerAt, h.slice_rest, isMarker, opensDocument_eq_isPrefixOf, closesDocument_eq_isPrefixOf]
  have opens := h.marker_eq ['-', '-', '-'] rfl
  have closes := h.marker_eq ['.', '.', '.'] rfl
  simp only [List.length_cons, List.length_nil, Nat.zero_add, Nat.reduceAdd] at opens closes
  rw [← opens, ← closes, ← Bool.and_or_distrib_right]
  rfl

theorem At.lineEnds_eq {parent : Int} {floor : Nat} (least : (floor : Int) = parent + 1)
    {line : Text} {lines : List Text} (h : At text pos cur)
    (rest : cur.rest = line ++ feedLines lines) :
    lineEnds text parent line pos =
      .ok (decide (indentation line < floor ∨ isMarker line = true)) := by
  rw [lineEnds, h.markerAt_eq, rest, isMarker_append_feedLines]
  by_cases outside : (indentation line : Int) ≤ parent
  · rw [if_pos outside, decide_eq_true (.inl (by omega))]
  · have inside : ¬ indentation line < floor := by omega
    rw [if_neg outside]
    cases marker : isMarker line with
    | true => rw [if_pos (indentation_eq_zero_of_isMarker marker), decide_eq_true (.inr rfl)]
    | false =>
      rw [decide_eq_false (by simp [inside])]
      split <;> rfl

/-- Scanning line after line ends behind the last line that has content. -/
theorem At.contentEnd_eq {parent : Int} {floor : Nat} (least : (floor : Int) = parent + 1)
    {lines : List Text} (oneLine : ∀ line ∈ lines, '\n' ∉ line) (h : At text pos cur)
    (rest : cur.rest = feedLines lines) (stop : Nat) :
    contentEnd text parent pos stop = .ok (if contentLines floor lines = [] then stop
      else pos + Text.size (feedLines (contentLines floor lines))) := by
  induction lines generalizing pos cur stop with
  | nil =>
    have ended := of_decide_eq_true (h.atEnd_eq.trans (by rw [rest]; rfl))
    rw [contentEnd, if_neg (Nat.not_lt_of_le ended)]
    rfl
  | cons line lines ih =>
    obtain ⟨oneLine, oneLines⟩ := List.forall_mem_cons.mp oneLine
    rw [feedLines_cons] at rest
    have more := of_decide_eq_false (h.atEnd_eq.trans (by rw [rest]; rfl))
    have inside := h.succ rest rfl
    have lineEnd := inside.lineEnd_eq
    rw [Cursor.rest_past, takeWhile_append_feedLines oneLine] at lineEnd
    have ahead : (cur.past ['\n'] (line ++ feedLines lines)).Takes line _ := .past rfl
    have behind := inside.takes ahead
    have forward := behind.advance_eq (show pos < pos + 1 + line.size by omega)
    have next := ih oneLines behind rfl
    rw [contentEnd, if_pos (Nat.lt_of_not_le more), lineEnd]
    simp only [bind, Except.bind, inside.slice_eq ahead, forward,
      inside.lineEnds_eq least rfl, next, decide_eq_true_eq]
    have size (kept : List Text) : pos + 1 + line.size + Text.size (feedLines kept) =
        pos + Text.size (feedLines (line :: kept)) := by
      rw [feedLines_cons, Text.size_cons, Text.size_append, ← Nat.add_assoc, ← Nat.add_assoc]
      rfl
    by_cases blank : line.isBlank = true
    · rw [if_pos blank, contentLines, if_pos blank]
      cases contentLines floor lines with
      | nil => rfl
      | cons line' kept => rw [size]; rfl
    · rw [if_neg blank, contentLines, if_neg blank]
      by_cases ends : indentation line < floor ∨ isMarker line = true
      · rw [if_pos ends, if_pos ends]
        rfl
      · rw [if_neg ends, if_neg ends, if_neg (List.cons_ne_nil _ _), ← size]
        cases contentLines floor lines <;> rfl

/-- Behind its indicator a literal or folded scalar goes on to the end of the line, and from there to
the end of its last line with content. -/
theorem At.blockScalarEnd_eq {parent : Int} {floor : Nat} (least : (floor : Int) = parent + 1)
    (h : At text pos cur) :
    ∃ header, lineEnd text pos = .ok header ∧ contentEnd text parent header header =
      .ok (pos + Text.size (scanBlockScalar floor cur.rest).1) := by
  obtain ⟨header, lines, pieces, content⟩ := scanBlockScalar_eq floor cur.rest
  have oneLine {line : Text} (inside : line ∈ header :: lines) : '\n' ∉ line :=
    Text.notMem_of_mem_splitOn (pieces ▸ inside)
  have whole : cur.rest = header ++ feedLines lines := by
    rw [← Text.joinWith_splitOn '\n' cur.rest, pieces, joinWith_eq_append_feedLines]
  have headerEnd := h.lineEnd_eq
  rw [whole, takeWhile_append_feedLines (oneLine List.mem_cons_self)] at headerEnd
  have ends := (h.takes (.past whole)).contentEnd_eq least
    (fun line later => oneLine (List.mem_cons_of_mem _ later)) rfl (pos + header.size)
  refine ⟨pos + header.size, headerEnd, ?_⟩
  rw [ends, content, joinWith_eq_append_feedLines, Text.size_append, ← Nat.add_assoc]
  split
  · rename_i none
    rw [none]
    rfl
  · rfl

/-- A literal or folded scalar ends behind its last line with content. -/
theorem readBlockScalar_agrees {parent : Int} {floor : Nat} (least : (floor : Int) = parent + 1)
    {c : Char} {style : ScalarStyle} {lead t : Text} (indicator : isIndicatorOf style c)
    (h : At text pos cur) (ahead : cur.Takes lead here) (rest : here.rest = c :: t) :
    Agrees text (readBlockScalar text style parent (pos + lead.size) pos)
      (.ok (Yaml.readBlockScalar style floor ⟨lead, here⟩ t)) := by
  have one : c.utf8Size = 1 := by rcases indicator with ⟨-, rfl⟩ | ⟨-, rfl⟩ <;> rfl
  obtain ⟨within, taken⟩ := h.takeUntil_eq ahead
  have inside := (h.takes ahead).succ rest one
  obtain ⟨header, headerEnd, ends⟩ := inside.blockScalarEnd_eq least
  have scanned : (here.past [c] t).Takes (scanBlockScalar floor t).1 _ :=
    .past (scanBlockScalar_append floor t).symm
  have behind := inside.takes scanned
  rw [Cursor.rest_past] at ends
  simp only [readBlockScalar, bind, Except.bind, taken, headerEnd, ends, inside.slice_eq scanned,
    behind.moveTo_eq (show pos + lead.size ≤ _ by omega)]
  rw [readBlockScalar_eq]
  refine .ok _ ?_
  rw [Cursor.past_past] at behind
  rcases indicator with ⟨rfl, rfl⟩ | ⟨rfl, rfl⟩ <;> exact behind

theorem At.keyFollows_eq (h : At text pos cur) :
    (byteAt text (pos + inlineBlanks (bytesFrom text pos)) == some ':' &&
      blankOrEndAt text (pos + inlineBlanks (bytesFrom text pos) + 1)) = keyFollows cur.rest := by
  have behind := h.takes (.past (List.takeWhile_append_dropWhile (p := isInlineBlank)).symm)
  rw [h.bytesFrom_eq, inlineBlanks_utf8, keyFollows, Text.span]
  by_cases colon : (cur.rest.dropWhile isInlineBlank).head? = some ':'
  · obtain ⟨after, rest⟩ := List.head?_eq_some_iff.mp colon
    rw [(behind.byteAt_eq_some (by decide)).mpr colon, (behind.succ rest rfl).blankOrEndAt_eq, rest]
    rfl
  · have other := mt (behind.byteAt_eq_some (by decide)).mp colon
    rw [beq_eq_false_iff_ne.mpr other, Bool.false_and]
    split
    · rename_i found
      rw [(Prod.mk.inj found).2] at colon
      contradiction
    · rfl

theorem At.keyAt_quoted {quote : Char} {t : Text} (h : At text pos cur)
    (isQuote : quote = '\'' ∨ quote = '"') (rest : cur.rest = quote :: t) :
    keyAt text pos = .ok (opensEntry cur.rest) := by
  have more := of_decide_eq_false (h.atEnd_eq.trans (by rw [rest]; rfl))
  have narrow : quote.toNat < 128 := by rcases isQuote with rfl | rfl <;> decide
  have one : quote.utf8Size = 1 := by rcases isQuote with rfl | rfl <;> rfl
  have first : byteAt text pos = some quote := (h.byteAt_eq_some narrow).mpr (rest ▸ rfl)
  have canOpen : cannotOpenKey cur.rest = false := by
    rw [rest]
    rcases isQuote with rfl | rfl <;> rfl
  rw [keyAt, if_neg more, first]
  rcases h.quotedEnd_cases isQuote rest with
    ⟨refused, scanned⟩ | ⟨inner, after, whole, ends, scanned⟩
  · rw [refused, h.refuse_eq, opensEntry, scanKey, canOpen, scanned]
    rcases isQuote with rfl | rfl <;> rfl
  · obtain ⟨-, behind⟩ := h.quoted one whole
    have further : (pos + 1 + Text.size inner + 1 != pos) = true := bne_iff_ne.mpr (by omega)
    have notPlain : quotedStyle quote ≠ .plain := by rcases isQuote with rfl | rfl <;> decide
    rw [opensEntry_of_scanScalar (scanned false) (fun plain => notPlain plain.1) canOpen, ends]
    rcases isQuote with rfl | rfl
    all_goals
      simp only [bind, Except.bind, Bool.and_assoc, behind.keyFollows_eq, further]
      rfl

theorem At.keyAt_plain (h : At text pos cur) (canOpen : cannotOpenKey cur.rest = false)
    (single : cur.rest.head? ≠ some '\'') (double : cur.rest.head? ≠ some '"') :
    keyAt text pos = .ok (opensEntry cur.rest) := by
  have more : ¬ text.size ≤ pos := by
    refine of_decide_eq_false (h.atEnd_eq.trans ?_)
    cases rest : cur.rest with
    | nil => rw [rest] at canOpen; contradiction
    | cons c t => rfl
  have behind := h.takes (.past (scanPlain_append false cur.rest).symm)
  have plain : (pos + Text.size (scanPlain false cur.rest).1 != pos &&
      keyFollows (scanPlain false cur.rest).2) = opensEntry cur.rest := by
    have scanned : scanScalar false cur.rest = _ := scanScalar_plain single double
    by_cases empty : (scanPlain false cur.rest).1 = []
    · simp [opensEntry, scanKey, canOpen, scanned, empty]
    · have longer := Text.size_pos empty
      rw [bne_iff_ne.mpr (by omega), Bool.true_and,
        opensEntry_of_scanScalar scanned (fun none => empty none.2) canOpen]
  have opener {c : Char} (first : byteAt text pos = some c) : cannotOpenKey [c] = false := by
    rcases h.byteAt_cases with same | ⟨none, -⟩
    · obtain ⟨t, rest⟩ := List.head?_eq_some_iff.mp (same.symm.trans first)
      rw [rest] at canOpen
      exact canOpen
    · rw [none] at first
      contradiction
  have notSingle := mt (h.byteAt_eq_some (by decide)).mp single
  have notDouble := mt (h.byteAt_eq_some (by decide)).mp double
  rw [keyAt, if_neg more]
  split
  case h_8 =>
    simp only [bind, Except.bind, h.bytesFrom_eq, plainEnd_eq, Bool.and_assoc,
      behind.keyFollows_eq, Cursor.rest_past, plain]
  case h_1 | h_2 => contradiction
  all_goals exact absurd (opener ‹_›) (by decide)

/-- A key is found where there is one. -/
theorem At.keyAt_eq (h : At text pos cur) : keyAt text pos = .ok (opensEntry cur.rest) := by
  by_cases single : cur.rest.head? = some '\''
  · obtain ⟨t, rest⟩ := List.head?_eq_some_iff.mp single
    exact h.keyAt_quoted (.inl rfl) rest
  by_cases double : cur.rest.head? = some '"'
  · obtain ⟨t, rest⟩ := List.head?_eq_some_iff.mp double
    exact h.keyAt_quoted (.inr rfl) rest
  cases canOpen : cannotOpenKey cur.rest with
  | false => exact h.keyAt_plain canOpen single double
  | true =>
    rw [keyAt, opensEntry, scanKey, canOpen]
    cases rest : cur.rest with
    | nil =>
      have ended := of_decide_eq_true (h.atEnd_eq.trans (by rw [rest]; rfl))
      rw [if_pos ended]
      rfl
    | cons c t =>
      have more := of_decide_eq_false (h.atEnd_eq.trans (by rw [rest]; rfl))
      have first : c.toNat < 128 → byteAt text pos = some c :=
        fun narrow => (h.byteAt_eq_some narrow).mpr (rest ▸ rfl)
      rw [rest, cannotOpenKey] at canOpen
      simp only [Bool.or_eq_true, beq_iff_eq] at canOpen
      rw [if_neg more]
      rcases canOpen with (((rfl | rfl) | rfl) | rfl) | rfl <;> rw [first (by decide)] <;> rfl

/-- A key is a scalar with what comes up to the colon behind it. -/
theorem readKey_of_opensEntry {lead : Text} (opens : opensEntry here.rest = true) :
    Yaml.readKey ⟨lead, here⟩ = (do
      let (key, last) ← Yaml.readScalar false ⟨[], here⟩
      let (gap, after) := Text.span isInlineBlank last.rest
      .ok ((key, gap), last.past (gap ++ [':']) (after.drop 1))) := by
  obtain ⟨found, scanned⟩ := Option.isSome_iff_exists.mp opens
  obtain ⟨-, scalar, nonempty, inline, -⟩ := scanKey_eq_some.mp scanned
  have cut := span_inlineBlanks (t := found.rest) inline (show isInlineBlank ':' = false by decide)
  simp only [Yaml.readKey, Yaml.readScalar, scanned, scalar]
  cases unsupported here.rest with
  | some problem => rfl
  | none =>
    simp only [if_neg nonempty, bind, Except.bind, Cursor.rest_past, cut, Cursor.past_past,
      List.append_assoc]
    rfl

theorem readKey_agrees {lead : Text} (h : At text pos here) (opens : opensEntry here.rest = true) :
    Agrees text (readKey text pos) (Yaml.readKey ⟨lead, here⟩) := by
  rw [readKey_of_opensEntry opens, readKey]
  refine (readScalar_agrees false h (.refl here)).bind ?_
  intro key mid last read place
  obtain ⟨found, scanned⟩ := Option.isSome_iff_exists.mp opens
  obtain ⟨-, scalar, -, inline, -⟩ := scanKey_eq_some.mp scanned
  obtain ⟨-, style, inner, rest, again, -, -, rfl⟩ := readScalar_eq_ok.mp read
  obtain rfl := congrArg Scanned.rest (Option.some.inj (again.symm.trans scalar))
  have cut := span_inlineBlanks (t := found.rest) inline (show isInlineBlank ':' = false by decide)
  have colon := (place.takes (.past rfl)).succ rfl rfl
  simp only [place.takeInlineBlanks_eq cut, Cursor.rest_past, cut, bind, Except.bind]
  rw [Cursor.past_past] at colon
  exact .ok _ colon

theorem readFlowKey_agrees (h : At text pos here) :
    Agrees text (readFlowKey text pos) (Yaml.readFlowKey here) := by
  rw [readFlowKey, Yaml.readFlowKey]
  refine (readScalar_agrees true h (.refl here)).bind ?_
  intro key mid last read place
  cases cut : Text.span isInlineBlank last.rest with | mk gap after => ?_
  have whole := Text.span_append isInlineBlank last.rest
  rw [cut] at whole
  have behind := place.takes (.past whole.symm)
  simp only [place.takeInlineBlanks_eq cut, cut, bind, Except.bind]
  split
  · rename_i colon
    obtain ⟨rest, rfl⟩ := List.head?_eq_some_iff.mp ((behind.byteAt_eq_some (by decide)).mp colon)
    have behindColon := behind.succ rfl rfl
    rw [Cursor.past_past] at behindColon
    exact .ok _ behindColon
  · rename_i noColon
    split
    · rename_i found
      obtain ⟨rfl, rfl⟩ := Prod.mk.inj found
      exact absurd ((behind.byteAt_eq_some (by decide)).mpr rfl) noColon
    · rename_i found
      obtain ⟨rfl, rfl⟩ := Prod.mk.inj found
      exact .refuse behind (by simp)

end ConfigTree.Yaml.ByOffset
