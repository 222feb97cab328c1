import ConfigTree.Proofs.Yaml.Shape

/-!
# Absent values in flow mappings

The entry of a flow mapping may have nothing behind its colon. A text put there ends the key only if
the key is quoted: a plain key goes on over a colon that no blank follows. The text itself is read
as a plain scalar, and what stands behind it is read as before, since no reader of flow collections
looks at columns.
-/

namespace ConfigTree.Yaml

/-- The two cursors are in front of the same text, at any columns. -/
structure Cursor.Shifted (cur cur' : Cursor) : Prop where
  mayOpen : cur'.commentMayOpen = cur.commentMayOpen
  rest : cur'.rest = cur.rest

namespace Cursor.Shifted

variable {cur cur' : Cursor}

theorem past (h : cur.Shifted cur') (taken rest : Text) :
    (cur.past taken rest).Shifted (cur'.past taken rest) := by
  refine ⟨?_, rfl⟩
  rw [Cursor.past, Cursor.past, h.mayOpen]

theorem lead (h : cur.Shifted cur') : cur'.token.lead = cur.token.lead := by
  unfold Cursor.token
  rw [h.mayOpen, h.rest]

theorem here (h : cur.Shifted cur') : cur.token.here.Shifted cur'.token.here := by
  unfold Cursor.token
  rw [h.mayOpen, h.rest]
  exact h.past _ _

theorem token (h : cur.Shifted cur') {lead : Text} {here : Cursor}
    (found : cur.token = ⟨lead, here⟩) :
    ∃ here', cur'.token = ⟨lead, here'⟩ ∧ here.Shifted here' := by
  have shifted := h.here
  have lead' : cur'.token.lead = lead := h.lead.trans (congrArg Token.lead found)
  rw [found] at shifted
  subst lead'
  exact ⟨cur'.token.here, rfl, shifted⟩

end Cursor.Shifted

theorem readScalar_shifted {inFlow : Bool} {tok tok' : Token} {s : Scalar} {last : Cursor}
    (read : readScalar inFlow tok = .ok (s, last)) (lead : tok'.lead = tok.lead)
    (here : tok.here.Shifted tok'.here) :
    ∃ last', readScalar inFlow tok' = .ok (s, last') ∧ last.Shifted last' := by
  obtain ⟨known, style, text, rest, scanned, nonempty, rfl, rfl⟩ := readScalar_eq_ok.mp read
  refine ⟨_, readScalar_eq_ok.mpr ⟨?_, style, text, rest, ?_, nonempty, ?_, rfl⟩, here.past _ _⟩
  · rw [here.rest, known]
  · rw [here.rest, scanned]
  · rw [lead]

theorem readFlowKey_shifted {here here' : Cursor} {key : Scalar} {gap : Text} {last : Cursor}
    (read : readFlowKey here = .ok ((key, gap), last)) (shifted : here.Shifted here') :
    ∃ last', readFlowKey here' = .ok ((key, gap), last') ∧ last.Shifted last' := by
  obtain ⟨mid, rest, scalarRead, cut, rfl⟩ := readFlowKey_eq_ok.mp read
  have lead : (Token.mk [] here').lead = (Token.mk [] here).lead := rfl
  obtain ⟨mid', scalarRead', mid⟩ := readScalar_shifted scalarRead lead shifted
  refine ⟨_, readFlowKey_eq_ok.mpr ⟨mid', rest, scalarRead', ?_, rfl⟩, mid.past _ _⟩
  rw [mid.rest, cut]

theorem readComma_shifted {closing : Char} {cur cur' last : Cursor} {comma : Option Text}
    (read : readComma closing cur = .ok (comma, last)) (shifted : cur.Shifted cur') :
    ∃ last', readComma closing cur' = .ok (comma, last') ∧ last.Shifted last' := by
  rcases readComma_eq_ok.mp read with ⟨rest, here, rfl, rfl⟩ | ⟨notComma, here, rfl, rfl⟩
  · refine ⟨_, readComma_eq_ok.mpr (.inl ⟨rest, ?_, ?_, rfl⟩), shifted.here.past _ _⟩
    · rw [shifted.here.rest, here]
    · rw [shifted.lead]
  · refine ⟨cur', readComma_eq_ok.mpr (.inr ⟨notComma, ?_, rfl, rfl⟩), shifted⟩
    rw [shifted.here.rest, here]

mutual

/-- Flow collections are read alike at every column. -/
theorem ReadsFlowValue.shifted {cur cur' last : Cursor} {v : Value} (h : cur.Shifted cur') :
    ReadsFlowValue cur v last → ∃ last', ReadsFlowValue cur' v last' ∧ last.Shifted last'
  | .sequence found opening inner => by
    obtain ⟨here', found', here⟩ := h.token found
    obtain ⟨last', inner', last⟩ := inner.shifted (here.past _ _)
    exact ⟨last', .sequence found' (here.rest.trans opening) inner', last⟩
  | .mapping found opening inner => by
    obtain ⟨here', found', here⟩ := h.token found
    obtain ⟨last', inner', last⟩ := inner.shifted (here.past _ _)
    exact ⟨last', .mapping found' (here.rest.trans opening) inner', last⟩
  | .scalar notSequence notMapping read => by
    obtain ⟨last', read', last⟩ := readScalar_shifted read h.lead h.here
    rw [← h.here.rest] at notSequence notMapping
    exact ⟨last', .scalar notSequence notMapping read', last⟩

theorem ReadsFlowItems.shifted {cur cur' last : Cursor} {is : List Item} {closing : Text}
    (h : cur.Shifted cur') :
    ReadsFlowItems cur is closing last →
      ∃ last', ReadsFlowItems cur' is closing last' ∧ last.Shifted last'
  | .close found closing => by
    obtain ⟨here', found', here⟩ := h.token found
    exact ⟨_, .close found' (here.rest.trans closing), here.past _ _⟩
  | .item found notClosing valueRead commaRead others => by
    obtain ⟨here', found', here⟩ := h.token found
    obtain ⟨mid', valueRead', mid⟩ := valueRead.shifted here
    obtain ⟨next', commaRead', next⟩ := readComma_shifted commaRead mid
    obtain ⟨last', others', last⟩ := others.shifted next
    rw [← here.rest] at notClosing
    exact ⟨last', .item found' notClosing valueRead' commaRead' others', last⟩

theorem ReadsFlowEntries.shifted {cur cur' last : Cursor} {es : List Entry} {closing : Text}
    (h : cur.Shifted cur') :
    ReadsFlowEntries cur es closing last →
      ∃ last', ReadsFlowEntries cur' es closing last' ∧ last.Shifted last'
  | .close found closing => by
    obtain ⟨here', found', here⟩ := h.token found
    exact ⟨_, .close found' (here.rest.trans closing), here.past _ _⟩
  | .entry found notClosing keyRead valueRead commaRead others => by
    obtain ⟨here', found', here⟩ := h.token found
    obtain ⟨afterColon', keyRead', afterColon⟩ := readFlowKey_shifted keyRead here
    obtain ⟨mid', valueRead', mid⟩ := valueRead.shifted afterColon
    obtain ⟨next', commaRead', next⟩ := readComma_shifted commaRead mid
    obtain ⟨last', others', last⟩ := others.shifted next
    rw [← here.rest] at notClosing
    exact ⟨last', .entry found' notClosing keyRead' valueRead' commaRead' others', last⟩

theorem ReadsFlowEntryValue.shifted {cur cur' last : Cursor} {v : Value} (h : cur.Shifted cur') :
    ReadsFlowEntryValue cur v last → ∃ last', ReadsFlowEntryValue cur' v last' ∧ last.Shifted last'
  | .absent empty next => by
    rw [← h.here.rest] at next
    exact ⟨cur', .absent empty next, h⟩
  | .value notComma notClosing valueRead => by
    obtain ⟨last', valueRead', last⟩ := valueRead.shifted h
    rw [← h.here.rest] at notComma notClosing
    exact ⟨last', .value notComma notClosing valueRead', last⟩

end

/-- The texts that are read back as they are when they stand as plain scalars in block and in flow
context. -/
structure FlowText (text : Text) : Prop extends PlainText text where
  noIndicator : ∀ c ∈ text, isFlowIndicator c = false

theorem FlowText.exists_cons {v : Text} (h : FlowText v) :
    ∃ c cs, v = c :: cs ∧ isBlank c = false ∧ isFlowIndicator c = false := by
  obtain ⟨c, cs, rfl⟩ := List.exists_cons_of_ne_nil h.nonempty
  exact ⟨c, cs, rfl, (trivia_cons_eq_nil.mp h.starts).1, h.noIndicator c List.mem_cons_self⟩

/-- A plain scalar that prints as its text, a text that can stand in block and in flow context. -/
structure Scalar.Fills (new : Scalar) : Prop where
  text : FlowText new.text
  bare : new.unnumbered = .fresh [] .plain new.text

theorem Scalar.Fills.of_unnumbered {new : Scalar} {v : Text} (text : FlowText v)
    (bare : new.unnumbered = .fresh [] .plain v) : new.Fills := by
  obtain rfl : new.text = v := congrArg Scalar.text bare
  exact ⟨text, bare⟩

theorem Scalar.Fills.print {new : Scalar} (h : new.Fills) :
    (Value.scalar new).print = new.text := by
  obtain ⟨id, lead, style, text, mark⟩ := new
  obtain ⟨rfl, rfl, rfl⟩ : lead = [] ∧ style = .plain ∧ mark = none := by
    simpa [Scalar.unnumbered, Scalar.fresh] using h.bare
  exact Value.print_scalar rfl

theorem plainRun_of_noIndicator {afterBlank : Bool} {t : Text}
    (h : ∀ c ∈ t, isFlowIndicator c = false) :
    plainRun true afterBlank t = plainRun false afterBlank t := by
  induction t generalizing afterBlank with
  | nil => rfl
  | cons c t ih =>
    have ends : colonEnds true t = colonEnds false t := by
      cases t with
      | nil => rfl
      | cons d t => simp [colonEnds, h d (by simp)]
    rw [plainRun, plainRun, ih fun d inside => h d (List.mem_cons_of_mem _ inside), ends,
      h c List.mem_cons_self]
    simp

theorem FlowText.scanScalar_append {text rest : Text} (h : FlowText text)
    (stops : plainStops true rest) :
    scanScalar true (text ++ rest) = some ⟨.plain, text, rest⟩ := by
  obtain ⟨notQuote, scanned⟩ := scanScalar_eq_plain.mp h.scanned
  have scanned' : scanPlain true (text ++ []) = (text, []) := by
    rw [List.append_nil, scanPlain, plainRun_of_noIndicator h.noIndicator]
    exact scanned
  refine scanScalar_eq_plain.mpr ⟨?_, scanPlain_append_of scanned' h.nonempty (fun _ => rfl) stops⟩
  rwa [← head_append_left h.nonempty rest]

/-- Blanks and comments in front of an indicator are no more of a plain scalar than blanks. A
comment opens where the scalar sees one. -/
theorem plainRun_of_trivia {afterBlank : Bool} {t : Text}
    (h : ∀ c ∈ (trivia afterBlank false t).2.head?, isFlowIndicator c = true) :
    ∀ c ∈ plainRun true afterBlank t, isInlineBlank c = true := by
  induction t generalizing afterBlank with
  | nil => simp [plainRun]
  | cons c t ih =>
    cases blank : isBlank c with
    | true =>
      have others : ∀ d ∈ plainRun true true t, isInlineBlank d = true :=
        ih (by simpa [trivia, blank] using h)
      by_cases lineEnd : c = '\n' ∨ c = '\r'
      · rw [plainRun, if_pos lineEnd]
        exact fun d inside => absurd inside List.not_mem_nil
      · have inline : ∀ d ∈ [c], isInlineBlank d = true := by
          unfold isBlank at blank
          unfold isInlineBlank
          grind
        have run : plainRun true afterBlank ([c] ++ t) = [c] ++ plainRun true (isBlank c) t :=
          plainRun_inlineBlanks t inline
        rw [blank] at run
        rw [← List.singleton_append, run]
        exact List.forall_mem_append.mpr ⟨inline, others⟩
    | false =>
      have stops : plainRun true afterBlank (c :: t) = [] := by
        rw [plainRun_cons_eq_nil]
        by_cases comment : c = '#' ∧ afterBlank = true
        · exact .inr (.inr (.inr (.inl comment)))
        · rw [trivia_cons_eq_nil.mpr ⟨blank, comment⟩] at h
          exact .inr (.inr (.inr (.inr ⟨rfl, h c rfl⟩)))
      rw [stops]
      exact fun d inside => absurd inside List.not_mem_nil

/-- Where no trivia come first the token is ahead at once. -/
theorem Cursor.token_of_starts {cur : Cursor}
    (starts : trivia cur.commentMayOpen false cur.rest = ([], cur.rest)) :
    cur.token = ⟨[], cur⟩ := by
  unfold Cursor.token
  rw [starts]
  rfl

/-- A text put behind a colon is read there as a plain scalar. -/
theorem Scalar.Fills.readsEntryValue {new : Scalar} (h : new.Fills) {cur : Cursor} {rest : Text}
    (text : cur.rest = new.text ++ rest) (stops : plainStops true rest) :
    ReadsFlowEntryValue cur (.scalar new) (cur.past new.text rest) := by
  obtain ⟨c, cs, begins, solid, notIndicator⟩ := h.text.exists_cons
  have token : cur.token = ⟨[], cur⟩ := by
    have starts := h.text.starts
    rw [begins] at starts
    obtain ⟨-, notComment⟩ := trivia_cons_eq_nil.mp starts
    refine Cursor.token_of_starts ?_
    rw [text, begins, List.cons_append]
    exact trivia_cons_eq_nil.mpr ⟨solid, fun comment => notComment ⟨comment.1, rfl⟩⟩
  have head : cur.token.here.rest.head? = some c := by
    rw [token, text, begins]
    rfl
  have notHead (d : Char) (indicator : isFlowIndicator d = true) :
      cur.token.here.rest.head? ≠ some d := by
    rw [head]
    rintro same
    rw [Option.some.inj same, indicator] at notIndicator
    contradiction
  have read : readScalar true cur.token = .ok (new.unnumbered, cur.past new.text rest) := by
    have supported := h.text.supported
    rw [← List.append_nil new.text] at supported
    rw [token, h.bare]
    refine readScalar_eq_ok.mpr ⟨?_, .plain, new.text, rest, ?_,
      fun absent => h.text.nonempty absent.2, rfl, rfl⟩
    · rw [text]
      exact unsupported_append_of h.text.nonempty (fun _ => rfl) supported
    · rw [text]
      exact h.text.scanScalar_append stops
  exact .value (notHead ',' rfl) (notHead '\x7d' rfl)
    (.scalar (notHead '[' rfl) (notHead '\x7b' rfl) read)

/-! ## Quoted keys -/

/-- Where a quoted scalar ends does not depend on what stands behind, but for one character. -/
theorem scanScalar_quoted_append_of {inFlow : Bool} {t rest' : Text} {found : Scanned} (lead : Text)
    (h : scanScalar inFlow t = some found) (quoted : found.style ≠ .plain)
    (head : rest'.head? = found.rest.head?) :
    scanScalar inFlow ((Scalar.fresh lead found.style found.text).written ++ rest') =
      some { found with rest := rest' } := by
  unfold scanScalar at h
  split at h
  · obtain ⟨⟨text, rest⟩, scanned, rfl⟩ := Option.map_eq_some_iff.mp h
    have again := scanSingleQuoted_append_of scanned head
    simp [Scalar.fresh, Scalar.written, scanScalar, again]
  · obtain ⟨⟨text, rest⟩, scanned, rfl⟩ := Option.map_eq_some_iff.mp h
    have again := scanDoubleQuoted_append_of scanned rest'
    simp [Scalar.fresh, Scalar.written, scanScalar, again]
  · cases h
    exact absurd rfl quoted

/-- A quoted key is read alike whatever stands behind its colon. -/
theorem readFlowKey_quoted {here here' : Cursor} {key : Scalar} {gap : Text} {last last' : Cursor}
    (read : readFlowKey here = .ok ((key.unnumbered, gap), last)) (quoted : key.style ≠ .plain)
    (taken' : here'.Takes (key.written ++ gap ++ [':']) last') :
    readFlowKey here' = .ok ((key.unnumbered, gap), last') := by
  obtain ⟨mid, after, scalarRead, cut, -⟩ := readFlowKey_eq_ok.mp read
  obtain ⟨atColon, inline⟩ := eq_append_of_span cut
  obtain ⟨taken, nonempty, -, -⟩ := readScalar_takes scalarRead
  obtain ⟨known, style, text, rest, scanned, solid, fresh, position⟩ :=
    readScalar_eq_ok.mp scalarRead
  have atRest : mid.rest = rest := by
    rw [position]
    rfl
  have written : (Scalar.fresh [] style text).written = key.written :=
    (congrArg Scalar.written fresh).symm
  have sameStyle : style = key.style := (congrArg Scalar.style fresh).symm
  rw [List.append_assoc] at taken'
  obtain ⟨mid', scalarTaken, colonTaken⟩ := taken'.split
  have atColon' : mid'.rest = gap ++ ':' :: last'.rest := by
    rw [colonTaken.rest_eq]
    simp
  have head : mid'.rest.head? = mid.rest.head? := by
    rw [atColon', atColon]
    cases gap <;> rfl
  have again := scanScalar_quoted_append_of [] scanned (sameStyle ▸ quoted) (atRest ▸ head)
  rw [written, ← scalarTaken.rest_eq] at again
  refine readFlowKey_eq_ok.mpr ⟨mid', last'.rest, ?_, ?_, colonTaken.2⟩
  · refine readScalar_eq_ok.mpr ⟨?_, style, text, mid'.rest, again, solid, fresh, scalarTaken.2⟩
    have known : unsupported here.rest = none := known
    show unsupported here'.rest = none
    rw [taken.rest_eq] at known
    rw [scalarTaken.rest_eq]
    refine unsupported_append_of nonempty ?_ known
    rw [blankOrEnd_of_head head]
    exact id
  · rw [atColon', span_inlineBlanks inline rfl]

/-- What is taken in an edited text, behind the trivia, stands where it stood. -/
theorem Cursor.Aligned.atTaken {cur cur' here last : Cursor} {lead t rest' : Text}
    (h : cur.Aligned cur') (found : cur.token = ⟨lead, here⟩) (taken : here.Takes t last)
    (inside : last.rest.length < here.rest.length) (text' : cur'.rest = lead ++ (t ++ rest')) :
    ∃ here' last', cur'.token = ⟨lead, here'⟩ ∧ here.Aligned here' ∧
      here'.rest.head? = here.rest.head? ∧ here'.Takes t last' ∧ last.Aligned last' ∧
      last'.rest = rest' := by
  rw [← List.append_assoc] at text'
  have taken' : cur'.Takes (lead ++ t) _ := .past text'
  have inside : last.rest.length < cur.token.here.rest.length := by rwa [found]
  obtain ⟨token, head⟩ := h.token ((cur.takes_of_token found).trans taken) taken' inside
  obtain ⟨here', found', here, tTaken⟩ := token.split found taken'
  rw [found, found'] at head
  exact ⟨here', _, found', here, head, tTaken, here.takes taken tTaken, rfl⟩

mutual

/-- The second value is the first with `new` in the place of an absent value: that of an entry with
the key `key`, in a mapping of the style `style` that is reached from mapping to mapping. -/
inductive Value.Filled (style : CollectionStyle) (key new : Scalar) : Value → Value → Prop where
  | mapping {id id' : NodeId} {own : CollectionStyle} {es es' : List Entry}
      (entries : EntriesFilled style key new own es es') :
      Value.Filled style key new (.mapping ⟨id, own, es⟩) (.mapping ⟨id', own, es'⟩)

/-- The same of the entries of a mapping of the style `own`. -/
inductive EntriesFilled (style : CollectionStyle) (key new : Scalar) :
    CollectionStyle → List Entry → List Entry → Prop where
  | absent {id id' : NodeId} {lead gap : Text} {s : Scalar} {comma : Option Text} {es : List Entry}
      (empty : s.unnumbered = .fresh [] .plain []) :
      EntriesFilled style key new style (⟨id, lead, key, gap, .scalar s, comma⟩ :: es)
        (⟨id', lead, key, gap, .scalar new, comma⟩ :: es)
  | inside {own : CollectionStyle} {id id' : NodeId} {lead gap : Text} {above : Scalar}
      {value value' : Value} {comma : Option Text} {es : List Entry}
      (edit : Value.Filled style key new value value') :
      EntriesFilled style key new own (⟨id, lead, above, gap, value, comma⟩ :: es)
        (⟨id', lead, above, gap, value', comma⟩ :: es)
  | later {own : CollectionStyle} {e : Entry} {es es' : List Entry}
      (others : EntriesFilled style key new own es es') :
      EntriesFilled style key new own (e :: es) (e :: es')

end

/-! ## Reading filled flow mappings -/

theorem Cursor.exists_takes {cur : Cursor} {taken rest : Text} (h : cur.rest = taken ++ rest) :
    ∃ last, cur.Takes taken last ∧ last.rest = rest :=
  ⟨_, .past h, rfl⟩

theorem readComma_some_aligned {closing : Char} {mid mid' next next' : Cursor} {lead : Text}
    (read : readComma closing mid = .ok (some lead, next)) (aligned : mid.Aligned mid')
    (taken' : mid'.Takes (lead ++ [',']) next') :
    readComma closing mid' = .ok (some lead, next') ∧
      mid'.token.here.rest.head? = mid.token.here.rest.head? := by
  obtain ⟨rest, here, same, position⟩ | ⟨-, -, none, -⟩ := readComma_eq_ok.mp read
  · have inside : next.rest.length < mid.token.here.rest.length := by
      rw [here, position]
      exact Nat.lt_succ_self _
    obtain ⟨token, head⟩ := aligned.token (readComma_takes read) taken' inside
    obtain rfl := Option.some.inj same
    rw [here] at head
    obtain ⟨rest', here'⟩ := List.head?_eq_some_iff.mp head
    rw [← token.lead] at taken'
    have taken : mid'.token.here.Takes [','] _ := .past here'
    have atComma := mid'.takes_token.trans taken
    refine ⟨readComma_eq_ok.mpr (.inl ⟨rest', here', ?_, taken'.unique atComma⟩), ?_⟩
    · rw [token.lead]
    · rw [here', here]
      rfl
  · contradiction

/-- Another entry follows a comma. -/
theorem ReadsFlowEntries.comma_of_more {mid next last : Cursor} {comma : Option Text}
    {es : List Entry} {closing : Text} (commaRead : readComma '\x7d' mid = .ok (comma, next))
    (others : ReadsFlowEntries next es closing last) (more : es ≠ []) :
    ∃ lead, comma = some lead := by
  obtain ⟨-, -, rfl, -⟩ | ⟨-, closes, -, rfl⟩ := readComma_eq_ok.mp commaRead
  · exact ⟨_, rfl⟩
  · exact absurd (others.eq_nil closes) more

theorem EntriesFilled.ne_nil {style own : CollectionStyle} {key new : Scalar} {es es' : List Entry}
    (h : EntriesFilled style key new own es es') : es ≠ [] := by
  cases h with
  | absent | inside | later => exact List.cons_ne_nil _ _

/-- An absent value is read as nothing. -/
theorem ReadsFlowEntryValue.of_empty {cur last : Cursor} {s : Scalar}
    (h : ReadsFlowEntryValue cur (.scalar s) last) (empty : s.unnumbered = .fresh [] .plain []) :
    last = cur ∧ (cur.token.here.rest.head? = some ',' ∨
      cur.token.here.rest.head? = some '\x7d') := by
  cases h with
  | absent _ next => exact ⟨rfl, next⟩
  | value notComma notClosing valueRead =>
    cases valueRead with
    | scalar notSequence notMapping read =>
      obtain ⟨-, nonempty, -, -⟩ := readScalar_takes read
      exact absurd (congrArg Scalar.written empty) nonempty

/-- A mapping is no absent value. -/
theorem ReadsFlowEntryValue.of_mapping {cur last : Cursor} {m : Mapping}
    (h : ReadsFlowValue cur (.mapping m) last) : ReadsFlowEntryValue cur (.mapping m) last := by
  cases h with
  | mapping found opening inner =>
    have head : cur.token.here.rest.head? = some '\x7b' := by
      rw [found, opening]
      rfl
    have notComma : cur.token.here.rest.head? ≠ some ',' := by
      rw [head]
      decide
    have notClosing : cur.token.here.rest.head? ≠ some '\x7d' := by
      rw [head]
      decide
    exact .value notComma notClosing (.mapping found opening inner)

/-- A filled flow mapping opens with the brace it opened with. -/
theorem Value.Filled.opens {style : CollectionStyle} {key new : Scalar} {u u' : Value}
    {cur last : Cursor} (h : Value.Filled style key new u u') (read : ReadsFlowValue cur u last) :
    ∃ inner inner', cur.token.here.rest = '\x7b' :: inner ∧
      u'.print = cur.token.lead ++ '\x7b' :: inner' := by
  cases h with
  | mapping entries =>
    cases read with
    | mapping found opening inner =>
      rw [found, Value.print_flow_mapping, List.append_assoc]
      exact ⟨_, _, opening, rfl⟩

theorem Value.Filled.begins_flow {style : CollectionStyle} {key new : Scalar} {u u' : Value}
    {cur last : Cursor} (h : Value.Filled style key new u u') (read : ReadsFlowValue cur u last) :
    cur.token.Begins u'.print ∧ cur.token.here.rest ≠ [] := by
  obtain ⟨inner, inner', here, print⟩ := h.opens read
  rw [here]
  have starts : trivia cur.token.here.commentMayOpen false ('\x7b' :: inner') =
      ([], '\x7b' :: inner') := trivia_cons_eq_nil.mpr ⟨rfl, by simp⟩
  exact ⟨⟨_, print, List.cons_ne_nil _ _, starts⟩, List.cons_ne_nil _ _⟩

section Reading

variable {style : CollectionStyle} {key new : Scalar}

/-- In front of a separator the text is read where there was nothing. -/
theorem readsFlowEntryValue_of_empty (fills : new.Fills) {cur cur' : Cursor}
    (closed : cur.commentMayOpen = false)
    (next : cur.token.here.rest.head? = some ',' ∨ cur.token.here.rest.head? = some '\x7d')
    (text' : cur'.rest = new.text ++ cur.rest) :
    ∃ last', ReadsFlowEntryValue cur' (.scalar new) last' ∧ cur.Shifted last' := by
  have stops : plainStops true cur.rest := by
    refine plainRun_of_trivia fun c first => ?_
    have ahead : c ∈ cur.token.here.rest.head? := by
      unfold Cursor.token
      rwa [closed]
    rcases next with next | next
    all_goals
      rw [next] at ahead
      obtain rfl := Option.some.inj ahead
      rfl
  have scanned := fills.text.toPlainText.scanPlain_nil
  obtain ⟨-, -, -, closes, -⟩ := scanPlain_eq scanned fills.text.nonempty
  refine ⟨_, fills.readsEntryValue text' stops, ?_, rfl⟩
  rw [closed]
  exact closes _

theorem commentMayOpen_of_takes {cur last : Cursor} {t : Text} {c : Char}
    (solid : isBlank c = false) (h : cur.Takes (t ++ [c]) last) : last.commentMayOpen = false := by
  rw [h.2, Cursor.past]
  dsimp only
  rw [openAfter_append, openAfter, solid]
  rfl

/-- The text from an entry on. -/
theorem entriesPrint_entry {key : Scalar} (unmarked : key.mark = none) (keyLead : key.lead = [])
    (id : NodeId) (lead gap : Text) (value : Value) (comma : Option Text) (es : List Entry)
    (behind : Text) :
    entriesPrint (⟨id, lead, key, gap, value, comma⟩ :: es) ++ behind =
      lead ++ (key.written ++ gap ++ [':'] ++
        (value.print ++ (commaText comma ++ (entriesPrint es ++ behind)))) := by
  rw [entriesPrint_cons, Entry.print_mk unmarked keyLead]
  simp only [List.append_assoc]

theorem Value.Filled.opens_entryValue {u u' : Value} {cur last : Cursor}
    (h : Value.Filled style key new u u') (read : ReadsFlowEntryValue cur u last) :
    ∃ opening inner inner', (∃ c ∈ opening, isFlowIndicator c = true) ∧
      cur.rest = opening ++ inner ∧ u'.print = opening ++ inner' := by
  have valueRead : ReadsFlowValue cur u last := by
    cases read with
    | absent => cases h
    | value notComma notClosing valueRead => exact valueRead
  obtain ⟨inner, inner', atBrace, print⟩ := h.opens valueRead
  refine ⟨cur.token.lead ++ ['\x7b'], inner, inner', ⟨'\x7b', by simp, rfl⟩, ?_, ?_⟩
  · rw [← cur.lead_append_token, atBrace, List.append_assoc]
    rfl
  · rw [print, List.append_assoc]
    rfl

/-- What stands behind a value. -/
theorem ReadsFlowEntries.rest_eq {mid next last : Cursor} {comma : Option Text} {es : List Entry}
    {closing : Text} (commaRead : readComma '\x7d' mid = .ok (comma, next))
    (others : ReadsFlowEntries next es closing last) :
    mid.rest = commaText comma ++ (entriesPrint es ++ (closing ++ (['\x7d'] ++ last.rest))) := by
  rw [((readComma_takes commaRead).trans others.takes).rest_eq]
  simp only [List.append_assoc]

mutual

/-- A filled flow mapping is read from the edited text. -/
theorem ReadsFlowValue.filled {cur cur' last : Cursor} {u u' : Value} (fills : new.Fills)
    (quoted : key.style ≠ .plain) (edit : Value.Filled style key new u u')
    (aligned : cur.Aligned cur') (text' : cur'.rest = u'.print ++ last.rest) :
    ReadsFlowValue cur u last → ∃ last', ReadsFlowValue cur' u' last' ∧ last.Shifted last'
  | .scalar _ _ _ | .sequence _ _ _ => by cases edit
  | @ReadsFlowValue.mapping _ _ last lead rest closing _ _ found opening inner => by
    have token : cur.token.Aligned cur'.token := by
      obtain ⟨begins, more⟩ := edit.begins_flow (.mapping found opening inner)
      exact aligned.token_of_begins more begins (.past text')
    cases edit with
    | @mapping _ _ _ _ es' entries =>
      have print : cur'.rest = lead ++ ['\x7b'] ++
          (entriesPrint es' ++ (closing ++ (['\x7d'] ++ last.rest))) := by
        rw [text', Value.print_flow_mapping]
        simp only [List.append_assoc]
      obtain ⟨here', found', here, taken'⟩ := token.split found (.past print)
      have inside := here.past ['\x7b'] rest
        (entriesPrint es' ++ (closing ++ (['\x7d'] ++ last.rest)))
      obtain ⟨last', inner', last⟩ := inner.filled fills quoted entries inside rfl
      exact ⟨last', .mapping found' taken'.rest_eq inner', last⟩

/-- The filled entries of a flow mapping are read from the edited text. What stands behind the
scalar moves to other columns, which are not looked at. -/
theorem ReadsFlowEntries.filled {own : CollectionStyle} {cur cur' last : Cursor}
    {es es' : List Entry} {closing : Text} (fills : new.Fills) (quoted : key.style ≠ .plain)
    (edit : EntriesFilled style key new own es es') (aligned : cur.Aligned cur')
    (text' : cur'.rest = entriesPrint es' ++ (closing ++ (['\x7d'] ++ last.rest))) :
    ReadsFlowEntries cur es closing last →
      ∃ last', ReadsFlowEntries cur' es' closing last' ∧ last.Shifted last'
  | .close _ _ => by cases edit
  | .entry found notClosing keyRead valueRead commaRead others => by
    obtain ⟨keyTaken, -, keyLead, unmarked⟩ := readFlowKey_takes keyRead
    have behind := others.rest_eq commaRead
    cases edit with
    | absent empty =>
      obtain ⟨rfl, next⟩ := valueRead.of_empty empty
      rw [entriesPrint_entry unmarked keyLead, fills.print, ← behind] at text'
      obtain ⟨here', afterColon', found', -, head, keyTaken', -, rest'⟩ :=
        aligned.atTaken found keyTaken (readFlowKey_length_lt keyRead) text'
      have keyRead' := readFlowKey_quoted keyRead quoted keyTaken'
      have closed := commentMayOpen_of_takes rfl keyTaken
      obtain ⟨mid', valueRead', mid⟩ := readsFlowEntryValue_of_empty fills closed next rest'
      obtain ⟨next', commaRead', next⟩ := readComma_shifted commaRead mid
      obtain ⟨last', others', last⟩ := others.shifted next
      exact ⟨last', .entry found' (head ▸ notClosing) keyRead' valueRead' commaRead' others', last⟩
    | inside edit =>
      rw [entriesPrint_entry unmarked keyLead, ← behind] at text'
      obtain ⟨here', afterColon', found', here, head, keyTaken', afterColon, rest'⟩ :=
        aligned.atTaken found keyTaken (readFlowKey_length_lt keyRead) text'
      obtain ⟨opening, inner, inner', indicator, opens, print⟩ := edit.opens_entryValue valueRead
      have opens' := rest'
      rw [print, List.append_assoc] at opens'
      have keyRead' := readFlowKey_aligned keyRead here keyTaken' opens opens' indicator
      obtain ⟨mid', valueRead', mid⟩ := valueRead.filled fills quoted edit afterColon rest'
      obtain ⟨next', commaRead', next⟩ := readComma_shifted commaRead mid
      obtain ⟨last', others', last⟩ := others.shifted next
      exact ⟨last', .entry found' (head ▸ notClosing) keyRead' valueRead' commaRead' others', last⟩
    | later othersEdit =>
      obtain ⟨lead, rfl⟩ := others.comma_of_more commaRead othersEdit.ne_nil
      rw [entriesPrint_entry unmarked keyLead] at text'
      obtain ⟨here', afterColon', found', here, head, keyTaken', afterColon, rest'⟩ :=
        aligned.atTaken found keyTaken (readFlowKey_length_lt keyRead) text'
      have commaTaken := readComma_takes commaRead
      obtain ⟨mid', valueTaken', rest'⟩ := Cursor.exists_takes rest'
      obtain ⟨next', commaTaken', rest'⟩ := Cursor.exists_takes rest'
      have mid := afterColon.takes valueRead.takes valueTaken'
      obtain ⟨commaRead', nextHead⟩ := readComma_some_aligned commaRead mid commaTaken'
      have indicator : ∃ c ∈ commaText (some lead), isFlowIndicator c = true :=
        ⟨',', List.mem_append_right _ List.mem_cons_self, rfl⟩
      have alike := endsAlike_of_takes commaTaken commaTaken' indicator
      have keyRead' := readFlowKey_aligned keyRead here keyTaken'
        (valueRead.takes.trans commaTaken).rest_eq (valueTaken'.trans commaTaken').rest_eq
        (indicator.imp fun c h => ⟨List.mem_append_right _ h.1, h.2⟩)
      have valueRead' := valueRead.aligned afterColon valueTaken' alike nextHead
      have next := mid.takes commaTaken commaTaken'
      obtain ⟨last', others', last⟩ := others.filled fills quoted othersEdit next rest'
      exact ⟨last', .entry found' (head ▸ notClosing) keyRead' valueRead' commaRead' others', last⟩

theorem ReadsFlowEntryValue.filled {cur cur' last : Cursor} {u u' : Value} (fills : new.Fills)
    (quoted : key.style ≠ .plain) (edit : Value.Filled style key new u u')
    (aligned : cur.Aligned cur') (text' : cur'.rest = u'.print ++ last.rest) :
    ReadsFlowEntryValue cur u last → ∃ last', ReadsFlowEntryValue cur' u' last' ∧ last.Shifted last'
  | .absent _ _ => by cases edit
  | .value notComma notClosing valueRead => by
    obtain ⟨last', valueRead', last⟩ := valueRead.filled fills quoted edit aligned text'
    cases edit with
    | mapping entries => exact ⟨last', .of_mapping valueRead', last⟩

end

end Reading

end ConfigTree.Yaml
