import ConfigTree.Proofs.Yaml.Rewriting
import ConfigTree.Yaml.Visit

/-!
# The shape of trees that are read

The rules of reading give trees of one shape only: block collections have content, and no comma in
it; flow collections hold no block collection and no literal or folded scalar; keys are scalars on
one line; and no plain scalar looks like anything else, be it a comment, a key or one of the
constructs that are not supported. A plain scalar ends in a colon, or is a lone question mark in
block context, only where a colon follows it, so only as a key.
-/

namespace ConfigTree.Yaml

/-- The texts of plain scalars. -/
structure PlainShape (inFlow : Bool) (t : Text) : Prop where
  nonempty : t ≠ []
  oneLine : ∀ c ∈ t, c ≠ '\n' ∧ c ≠ '\r'
  first : ∀ c ∈ t.head?, isInlineBlank c = false ∧
    c ∉ ['&', '*', '!', '%', '@', '\x60', '\'', '"']
  last : ∀ c ∈ t.getLast?, isInlineBlank c = false
  noComment : ∀ c, [c, '#'] <:+: t → isInlineBlank c = false
  noKey : ∀ c, [':', c] <:+: t → isInlineBlank c = false
  noComplexKey : ∀ c, ['?', c] <+: t → isInlineBlank c = false
  noIndicator : inFlow = true → ∀ c ∈ t, isFlowIndicator c = false

theorem pair_isInfix_cons {a b c : Char} {t : Text} :
    [a, b] <:+: c :: t ↔ a = c ∧ t.head? = some b ∨ [a, b] <:+: t := by
  rw [List.infix_cons_iff, List.cons_prefix_cons]
  cases t with
  | nil => simp
  | cons d t => simp only [List.cons_prefix_cons, List.nil_prefix, List.head?_cons,
      Option.some.injEq, and_true, eq_comm (a := b)]

theorem isInlineBlank_of_isBlank {c : Char} (h : isBlank c = false) : isInlineBlank c = false := by
  unfold isBlank at h
  unfold isInlineBlank
  grind

/-- The first character of a run is the first of its text, and no reason to stop. -/
theorem head_plainRun {inFlow afterBlank : Bool} {c : Char} {t : Text}
    (h : (plainRun inFlow afterBlank t).head? = some c) :
    t.head? = some c ∧ ¬ (c = '#' ∧ afterBlank = true) := by
  obtain ⟨run, found⟩ := List.head?_eq_some_iff.mp h
  obtain ⟨rest, rfl⟩ := found ▸ plainRun_isPrefix inFlow afterBlank t
  have goesOn : plainRun inFlow afterBlank (c :: (run ++ rest)) ≠ [] := by
    rw [← List.cons_append, found]
    exact List.cons_ne_nil _ _
  rw [Ne, plainRun_cons_eq_nil] at goesOn
  exact ⟨rfl, by grind⟩

theorem plainRun_tail {inFlow afterBlank : Bool} {c : Char} {t run : Text}
    (h : plainRun inFlow afterBlank (c :: t) = c :: run) :
    plainRun inFlow (isBlank c) t = run := by
  have goesOn : plainRun inFlow afterBlank (c :: t) ≠ [] := by
    rw [h]
    exact List.cons_ne_nil _ _
  rw [Ne, plainRun_cons_eq_nil] at goesOn
  rw [plainRun, if_neg (by grind), if_neg (by grind), if_neg (by grind), if_neg (by grind)] at h
  exact (List.cons.inj h).2

/-- A number sign in a run does not follow a blank. -/
theorem noComment_plainRun {inFlow afterBlank : Bool} {c : Char} {t : Text}
    (h : [c, '#'] <:+: plainRun inFlow afterBlank t) : isInlineBlank c = false := by
  fun_induction plainRun inFlow afterBlank t with
  | case6 _ d cs _ _ _ _ ih =>
    rcases pair_isInfix_cons.mp h with ⟨rfl, next⟩ | within
    · exact isInlineBlank_of_isBlank (by simpa using (head_plainRun next).2)
    · exact ih within
  | _ => simp at h

/-- A colon in a run is not followed by a blank. -/
theorem noKey_plainRun {inFlow afterBlank : Bool} {c : Char} {t : Text}
    (h : [':', c] <:+: plainRun inFlow afterBlank t) : isInlineBlank c = false := by
  fun_induction plainRun inFlow afterBlank t with
  | case6 _ d cs _ colon _ _ ih =>
    rcases pair_isInfix_cons.mp h with ⟨rfl, next⟩ | within
    · obtain ⟨after, rfl⟩ := List.head?_eq_some_iff.mp (head_plainRun next).1
      simp only [true_and, colonEnds, Bool.or_eq_true, not_or, Bool.not_eq_true] at colon
      exact isInlineBlank_of_isBlank colon.1
    · exact ih within
  | _ => simp at h

theorem noIndicator_plainRun {afterBlank : Bool} {t : Text} :
    ∀ c ∈ plainRun true afterBlank t, isFlowIndicator c = false := by
  fun_induction plainRun true afterBlank t <;> simp_all

/-- A colon that a run ends in does not end a scalar where it stands. -/
theorem colonEnds_of_plainRun {inFlow afterBlank : Bool} {s rest run : Text}
    (h : plainRun inFlow afterBlank (s ++ ':' :: rest) = s ++ ':' :: run) :
    colonEnds inFlow rest = false := by
  induction s generalizing afterBlank with
  | nil =>
    apply eq_false_of_ne_true
    intro ends
    rw [List.nil_append, plainRun_cons_eq_nil.mpr (.inr (.inr (.inl ⟨rfl, ends⟩)))] at h
    contradiction
  | cons c s ih => exact ih (plainRun_tail h)

/-- Only a colon, or in a flow collection a separator or bracket, ends a plain scalar that goes on
without a blank. -/
theorem plainStops_of_solid {inFlow : Bool} {c : Char} {t : Text}
    (stops : plainStops inFlow (c :: t)) (solid : isBlank c = false) :
    c = ':' ∧ colonEnds inFlow t = true ∨ inFlow = true ∧ isFlowIndicator c = true := by
  have nothing : plainRun inFlow false (c :: t) = [] := by
    rw [← List.nil_append (c :: t),
      plainStops_inlineBlanks (by simp) (isInlineBlank_of_isBlank solid)] at stops
    exact stops
  have notLineEnd : c ≠ '\n' ∧ c ≠ '\r' := by
    unfold isBlank at solid
    grind
  have := plainRun_cons_eq_nil.mp nothing
  grind

theorem solid_of_questionMark {c : Char} {t : Text} (h : unsupported ('?' :: c :: t) = none) :
    isBlank c = false := by
  apply eq_false_of_ne_true
  intro blank
  simp [unsupported, blankOrEnd, blank] at h

/-- A plain scalar as it is scanned at the token ahead. -/
theorem plainShape_of_scanPlain {inFlow mayOpen : Bool} {text rest : Text}
    (scanned : scanPlain inFlow (text ++ rest) = (text, rest)) (nonempty : text ≠ [])
    (notQuote : ∀ c ∈ (text ++ rest).head?, c ≠ '\'' ∧ c ≠ '"')
    (supported : unsupported (text ++ rest) = none)
    (starts : trivia mayOpen false (text ++ rest) = ([], text ++ rest)) :
    PlainShape inFlow text := by
  obtain ⟨run, -, stable, -, -⟩ := scanPlain_eq scanned nonempty
  have within : text <+: plainRun inFlow false (text ++ rest) := run ▸ List.prefix_append _ _
  refine ⟨nonempty, ?_, ?_, ?_, ?_, ?_, ?_, ?_⟩
  · intro c inside
    exact notMem_plainRun inFlow false _ c (within.subset inside)
  · obtain ⟨d, t, rfl⟩ := List.exists_cons_of_ne_nil nonempty
    intro c first
    obtain rfl := Option.some.inj first
    refine ⟨isInlineBlank_of_isBlank (trivia_cons_eq_nil.mp starts).1, ?_⟩
    intro reserved
    have := notQuote d rfl
    simp only [List.mem_cons, List.not_mem_nil, or_false] at reserved
    rcases reserved with rfl | rfl | rfl | rfl | rfl | rfl | rfl | rfl <;>
      simp_all [unsupported]
  · intro c last
    obtain ⟨s, rfl⟩ := List.getLast?_eq_some_iff.mp last
    exact Text.getLast_of_trimEndWhile stable
  · intro c pair
    exact noComment_plainRun (pair.trans within.isInfix)
  · intro c pair
    exact noKey_plainRun (pair.trans within.isInfix)
  · intro c opening
    obtain ⟨after, rfl⟩ := opening
    exact isInlineBlank_of_isBlank (solid_of_questionMark supported)
  · rintro rfl c inside
    exact noIndicator_plainRun c (within.subset inside)

/-- Behind a plain scalar that ends in a colon stands another one, and ends a key. -/
theorem rest_of_lastColon {inFlow : Bool} {text rest : Text}
    (scanned : scanPlain inFlow (text ++ rest) = (text, rest))
    (colon : text.getLast? = some ':') :
    ∃ after, rest = ':' :: after ∧ colonEnds inFlow after = true := by
  obtain ⟨s, rfl⟩ := List.getLast?_eq_some_iff.mp colon
  obtain ⟨run, stops, -⟩ := scanPlain_eq scanned (by simp)
  rw [List.append_assoc, List.append_assoc] at run
  have goesOn : colonEnds inFlow rest = false := colonEnds_of_plainRun run
  cases rest with
  | nil => contradiction
  | cons c after =>
    simp only [colonEnds, Bool.or_eq_false_iff, Bool.and_eq_false_imp] at goesOn
    rcases plainStops_of_solid stops goesOn.1 with ⟨rfl, ends⟩ | ⟨inFlow, indicator⟩
    · exact ⟨after, rfl, ends⟩
    · rw [goesOn.2 inFlow] at indicator
      contradiction

/-- Behind a lone question mark in block context stands a colon that ends a key. -/
theorem rest_of_questionMark {rest : Text}
    (scanned : scanPlain false (['?'] ++ rest) = (['?'], rest))
    (supported : unsupported (['?'] ++ rest) = none) :
    ∃ after, rest = ':' :: after ∧ colonEnds false after = true := by
  obtain ⟨-, stops, -⟩ := scanPlain_eq scanned (by simp)
  cases rest with
  | nil => contradiction
  | cons c after =>
    rcases plainStops_of_solid stops (solid_of_questionMark supported) with ⟨rfl, ends⟩ | ⟨inFlow, -⟩
    · exact ⟨after, rfl, ends⟩
    · contradiction

/-- Keys: plain or quoted, with nothing in front. -/
structure Scalar.KeyShaped (inFlow : Bool) (key : Scalar) : Prop where
  style : key.style = .plain ∨ key.style = .singleQuoted ∨ key.style = .doubleQuoted
  lead : key.lead = []
  plain : key.style = .plain → PlainShape inFlow key.text

/-- Scalars in the place of values. -/
structure Scalar.ValueShaped (inFlow : Bool) (s : Scalar) : Prop where
  style : inFlow = true → s.style ≠ .literal ∧ s.style ≠ .folded
  plain : s.style = .plain → PlainShape inFlow s.text
  notKey : s.style = .plain → s.text.getLast? ≠ some ':'
  notComplexKey : s.style = .plain → inFlow = false → s.text ≠ ['?']

mutual

/-- Values, `inFlow` in a flow collection. Every element of a flow collection but the last is
followed by a comma. -/
inductive Value.WellShaped : Bool → Value → Prop where
  | scalar {inFlow : Bool} {s : Scalar} (shape : s.ValueShaped inFlow) :
      Value.WellShaped inFlow (.scalar s)
  | blockMapping {id : NodeId} {es : List Entry} (nonempty : es ≠ [])
      (keys : ∀ e ∈ es, e.key.KeyShaped false) (values : ∀ e ∈ es, e.value.SlotShaped false)
      (commas : ∀ e ∈ es, e.comma = none) : Value.WellShaped false (.mapping ⟨id, .block, es⟩)
  | blockSequence {id : NodeId} {is : List Item} (nonempty : is ≠ [])
      (values : ∀ i ∈ is, i.value.SlotShaped false) (dashes : ∀ i ∈ is, i.dash = true)
      (commas : ∀ i ∈ is, i.comma = none) : Value.WellShaped false (.sequence ⟨id, .block, is⟩)
  | flowMapping {inFlow : Bool} {id : NodeId} {opening closing : Text} {es : List Entry}
      (keys : ∀ e ∈ es, e.key.KeyShaped true) (values : ∀ e ∈ es, e.value.SlotShaped true)
      (commas : ∀ e ∈ es.dropLast, e.comma.isSome = true) :
      Value.WellShaped inFlow (.mapping ⟨id, .flow opening closing, es⟩)
  | flowSequence {inFlow : Bool} {id : NodeId} {opening closing : Text} {is : List Item}
      (values : ∀ i ∈ is, i.value.WellShaped true) (dashes : ∀ i ∈ is, i.dash = false)
      (commas : ∀ i ∈ is.dropLast, i.comma.isSome = true) :
      Value.WellShaped inFlow (.sequence ⟨id, .flow opening closing, is⟩)

/-- Values where none has to be written: an absent one is an empty plain scalar. -/
inductive Value.SlotShaped : Bool → Value → Prop where
  | absent {inFlow : Bool} {s : Scalar} (empty : s.unnumbered = .fresh [] .plain []) :
      Value.SlotShaped inFlow (.scalar s)
  | value {inFlow : Bool} {v : Value} (shape : v.WellShaped inFlow) : Value.SlotShaped inFlow v

end

/-! ## Scalars and keys that are read -/

theorem style_of_scanScalar {inFlow : Bool} {t : Text} {found : Scanned}
    (h : scanScalar inFlow t = some found) :
    found.style = .plain ∧ (∀ c ∈ t.head?, c ≠ '\'' ∧ c ≠ '"') ∨
      found.style = .singleQuoted ∨ found.style = .doubleQuoted := by
  obtain ⟨style, text, rest⟩ := found
  cases style with
  | plain => exact .inl ⟨rfl, (scanScalar_eq_plain.mp h).1⟩
  | singleQuoted => exact .inr (.inl rfl)
  | doubleQuoted => exact .inr (.inr rfl)
  | literal => exact absurd h (by unfold scanScalar; split <;> simp)
  | folded => exact absurd h (by unfold scanScalar; split <;> simp)

theorem style_of_readScalar {inFlow : Bool} {tok : Token} {s : Scalar} {last : Cursor}
    (h : readScalar inFlow tok = .ok (s.unnumbered, last)) :
    s.style = .plain ∧ (∀ c ∈ tok.here.rest.head?, c ≠ '\'' ∧ c ≠ '"') ∨
      s.style = .singleQuoted ∨ s.style = .doubleQuoted := by
  obtain ⟨-, style, text, rest, scanned, -, fresh, -⟩ := readScalar_eq_ok.mp h
  have sameStyle : s.style = style := congrArg Scalar.style fresh
  rw [sameStyle]
  exact style_of_scanScalar scanned

theorem plainShape_of_readScalar {inFlow : Bool} {cur last : Cursor} {s : Scalar}
    (h : readScalar inFlow cur.token = .ok (s.unnumbered, last)) (plain : s.style = .plain) :
    PlainShape inFlow s.text := by
  obtain ⟨nonempty, here, scanned⟩ := scanPlain_of_readScalar h plain
  have supported := (readScalar_eq_ok.mp h).1
  have notQuote : ∀ c ∈ cur.token.here.rest.head?, c ≠ '\'' ∧ c ≠ '"' := by
    rcases style_of_readScalar h with ⟨-, notQuote⟩ | style | style
    · exact notQuote
    · rw [plain] at style
      contradiction
    · rw [plain] at style
      contradiction
  have starts : trivia cur.token.here.commentMayOpen false cur.token.here.rest =
      ([], cur.token.here.rest) := trivia_of_rest cur.commentMayOpen false cur.rest
  rw [here] at supported notQuote starts
  exact plainShape_of_scanPlain scanned nonempty notQuote supported starts

theorem keyShaped_of_readScalar {inFlow : Bool} {cur here last : Cursor} {lead : Text}
    {key : Scalar} (token : cur.token = ⟨lead, here⟩)
    (h : readScalar inFlow ⟨[], here⟩ = .ok (key.unnumbered, last)) : key.KeyShaped inFlow := by
  obtain ⟨-, -, keyLead, -⟩ := readScalar_takes h
  rw [← Cursor.token_of_token token] at h
  refine ⟨?_, keyLead, plainShape_of_readScalar h⟩
  rcases style_of_readScalar h with ⟨plain, -⟩ | quoted
  · exact .inl plain
  · exact .inr quoted

/-- A key of a block mapping is a scalar. -/
theorem readScalar_of_readKey {tok : Token} {key : Scalar} {gap : Text} {last : Cursor}
    (h : readKey tok = .ok ((key, gap), last)) :
    ∃ mid, readScalar false ⟨[], tok.here⟩ = .ok (key, mid) := by
  obtain ⟨supported, rest, scanned, fresh, -⟩ := readKey_eq_ok.mp h
  obtain ⟨-, scanned, nonempty, -, -⟩ := scanKey_eq_some.mp scanned
  exact ⟨_, readScalar_eq_ok.mpr ⟨supported, _, _, _, scanned, nonempty, fresh, rfl⟩⟩

/-- A scalar in the place of a value, where nothing behind it makes it a key. -/
theorem valueShaped_of_readScalar {inFlow : Bool} {cur last : Cursor} {s : Scalar}
    (h : readScalar inFlow cur.token = .ok (s.unnumbered, last))
    (notKey : s.style = .plain → ∀ after, last.rest = ':' :: after →
      colonEnds inFlow after = false) : s.ValueShaped inFlow := by
  refine ⟨?_, plainShape_of_readScalar h, ?_, ?_⟩
  · intro _
    rcases style_of_readScalar h with ⟨style, -⟩ | style | style <;> simp [style]
  · intro plain colon
    obtain ⟨-, -, scanned⟩ := scanPlain_of_readScalar h plain
    obtain ⟨after, behind, ends⟩ := rest_of_lastColon scanned colon
    rw [notKey plain after behind] at ends
    contradiction
  · rintro plain rfl lone
    obtain ⟨-, here, scanned⟩ := scanPlain_of_readScalar h plain
    have supported := (readScalar_eq_ok.mp h).1
    rw [here, lone] at supported
    rw [lone] at scanned
    obtain ⟨after, behind, ends⟩ := rest_of_questionMark scanned supported
    rw [notKey plain after behind] at ends
    contradiction

/-- In block context a scalar that opens no entry is no key. -/
theorem valueShaped_of_notEntry {cur last : Cursor} {s : Scalar}
    (mayOpen : cur.token.here.commentMayOpen = true)
    (notIndicator : ∀ c ∈ cur.token.here.rest.head?, c ∉ ['[', '\x7b', '|', '>'])
    (notEntry : opensEntry cur.token.here.rest = false)
    (h : readScalar false cur.token = .ok (s.unnumbered, last)) : s.ValueShaped false := by
  refine valueShaped_of_readScalar h ?_
  intro plain after behind
  have starts : trivia cur.token.here.commentMayOpen false cur.token.here.rest =
      ([], cur.token.here.rest) := trivia_of_rest cur.commentMayOpen false cur.rest
  have canOpen : cannotOpenKey cur.token.here.rest = false := by
    obtain ⟨nonempty, here, -⟩ := scanPlain_of_readScalar h plain
    obtain ⟨c, t, text⟩ := List.exists_cons_of_ne_nil nonempty
    rw [here, text, List.cons_append] at notIndicator starts ⊢
    have notComment := (trivia_cons_eq_nil.mp starts).2
    have notIndicator := notIndicator c rfl
    simp only [mayOpen, and_true] at notComment
    unfold cannotOpenKey
    grind
  have notKey := (keyFollows_of_notEntry h notEntry).resolve_left (by simp [canOpen])
  rw [behind, ← List.nil_append (':' :: after), keyFollows_inlineBlanks (by simp) rfl] at notKey
  simp only [decide_true, Bool.true_and] at notKey
  unfold colonEnds
  unfold blankOrEnd at notKey
  grind

/-- After an item of a flow collection the text does not go on with a colon. -/
theorem head_ne_colon_of_readComma {closing : Char} {cur last : Cursor} {comma : Option Text}
    (h : readComma closing cur = .ok (comma, last)) (bracket : closing ≠ ':') :
    cur.rest.head? ≠ some ':' := by
  intro colon
  obtain ⟨t, rest⟩ := List.head?_eq_some_iff.mp colon
  have token : cur.token.here.rest = ':' :: t := by
    have here : cur.token.here.rest = (trivia cur.commentMayOpen false cur.rest).2 := rfl
    rw [here, rest, trivia_cons_eq_nil.mpr ⟨rfl, by simp⟩]
  rcases readComma_eq_ok.mp h with ⟨after, comma, -⟩ | ⟨-, closes, -⟩
  · rw [token] at comma
    cases comma
  · rw [token] at closes
    exact bracket (Option.some.inj closes).symm

theorem ReadsFlowItems.eq_nil {cur last : Cursor} {is : List Item} {closing : Text}
    (h : ReadsFlowItems cur is closing last) (closes : cur.token.here.rest.head? = some ']') :
    is = [] := by
  cases h with
  | close => rfl
  | item token notClosing =>
    rw [token] at closes
    contradiction

theorem ReadsFlowEntries.eq_nil {cur last : Cursor} {es : List Entry} {closing : Text}
    (h : ReadsFlowEntries cur es closing last) (closes : cur.token.here.rest.head? = some '\x7d') :
    es = [] := by
  cases h with
  | close => rfl
  | entry token notClosing =>
    rw [token] at closes
    contradiction

theorem forall_mem_dropLast_cons {α : Type} {P : α → Prop} {a : α} {as : List α}
    (first : as ≠ [] → P a) (others : ∀ b ∈ as.dropLast, P b) : ∀ b ∈ (a :: as).dropLast, P b := by
  cases as with
  | nil => simp
  | cons b bs =>
    rw [List.dropLast_cons_cons]
    exact List.forall_mem_cons.mpr ⟨first (List.cons_ne_nil b bs), others⟩

theorem keyShaped_of_readFlowKey {cur here last : Cursor} {lead gap : Text} {key : Scalar}
    (token : cur.token = ⟨lead, here⟩)
    (h : readFlowKey here = .ok ((key.unnumbered, gap), last)) : key.KeyShaped true := by
  obtain ⟨mid, -, read, -⟩ := readFlowKey_eq_ok.mp h
  exact keyShaped_of_readScalar token read

mutual

/-- A scalar is a value of a flow collection where no colon follows it. -/
theorem ReadsFlowValue.wellShaped {inFlow : Bool} {cur last : Cursor} {v : Value} :
    ReadsFlowValue cur v last →
      (∀ s, v = .scalar s → inFlow = true ∧ last.rest.head? ≠ some ':') → v.WellShaped inFlow
  | .sequence _ _ inner, _ => by
    obtain ⟨items, commas⟩ := inner.wellShaped
    exact .flowSequence (fun i inside => (items i inside).1) (fun i inside => (items i inside).2)
      commas
  | .mapping _ _ inner, _ => by
    obtain ⟨entries, commas⟩ := inner.wellShaped
    exact .flowMapping (fun e inside => (entries e inside).1) (fun e inside => (entries e inside).2)
      commas
  | .scalar _ _ read, behind => by
    obtain ⟨rfl, notColon⟩ := behind _ rfl
    refine .scalar (valueShaped_of_readScalar read ?_)
    intro _ after colon
    rw [colon] at notColon
    contradiction

theorem ReadsFlowItems.wellShaped {cur last : Cursor} {is : List Item} {closing : Text} :
    ReadsFlowItems cur is closing last →
      (∀ i ∈ is, i.value.WellShaped true ∧ i.dash = false) ∧
        ∀ i ∈ is.dropLast, i.comma.isSome = true
  | .close _ _ => ⟨by simp, by simp⟩
  | .item _ _ valueRead commaRead others => by
    obtain ⟨items, commas⟩ := others.wellShaped
    have value := valueRead.wellShaped
      fun _ _ => ⟨rfl, head_ne_colon_of_readComma commaRead (by decide)⟩
    refine ⟨List.forall_mem_cons.mpr ⟨⟨value, rfl⟩, items⟩, forall_mem_dropLast_cons ?_ commas⟩
    intro more
    rcases readComma_eq_ok.mp commaRead with ⟨_, -, rfl, -⟩ | ⟨-, closes, -, rfl⟩
    · rfl
    · exact absurd (others.eq_nil closes) more

theorem ReadsFlowEntries.wellShaped {cur last : Cursor} {es : List Entry} {closing : Text} :
    ReadsFlowEntries cur es closing last →
      (∀ e ∈ es, e.key.KeyShaped true ∧ e.value.SlotShaped true) ∧
        ∀ e ∈ es.dropLast, e.comma.isSome = true
  | .close _ _ => ⟨by simp, by simp⟩
  | .entry token _ keyRead valueRead commaRead others => by
    obtain ⟨entries, commas⟩ := others.wellShaped
    have key := keyShaped_of_readFlowKey token keyRead
    have value := valueRead.slotShaped (head_ne_colon_of_readComma commaRead (by decide))
    refine ⟨List.forall_mem_cons.mpr ⟨⟨key, value⟩, entries⟩, forall_mem_dropLast_cons ?_ commas⟩
    intro more
    rcases readComma_eq_ok.mp commaRead with ⟨_, -, rfl, -⟩ | ⟨-, closes, -, rfl⟩
    · rfl
    · exact absurd (others.eq_nil closes) more

theorem ReadsFlowEntryValue.slotShaped {cur last : Cursor} {v : Value} :
    ReadsFlowEntryValue cur v last → last.rest.head? ≠ some ':' → v.SlotShaped true
  | .absent empty _, _ => .absent empty
  | .value _ _ valueRead, notColon => .value (valueRead.wellShaped fun _ _ => ⟨rfl, notColon⟩)

end

theorem keyShaped_of_readKey {cur here last : Cursor} {lead gap : Text} {key : Scalar}
    (token : cur.token = ⟨lead, here⟩)
    (h : readKey ⟨lead, here⟩ = .ok ((key.unnumbered, gap), last)) : key.KeyShaped false := by
  obtain ⟨mid, read⟩ := readScalar_of_readKey h
  exact keyShaped_of_readScalar token read

theorem ReadsPlainValue.wellShaped {floor : Nat} {cur last : Cursor} {v : Value}
    (h : ReadsPlainValue floor cur v last) (mayOpen : cur.token.here.commentMayOpen = true)
    (notEntry : opensEntry cur.token.here.rest = false) : v.WellShaped false := by
  cases h with
  | flow opening valueRead =>
    refine valueRead.wellShaped ?_
    rintro s rfl
    cases valueRead with
    | scalar notSequence notMapping => rcases opening with opening | opening <;> contradiction
  | @block _ style _ _ s indicator _ read =>
    have sameStyle : s.style = style := congrArg (·.1.style) read.symm
    have notPlain : s.style ≠ .plain := by
      rw [sameStyle]
      rcases indicator with ⟨rfl, -⟩ | ⟨rfl, -⟩ <;> simp
    exact .scalar ⟨by simp, fun plain => absurd plain notPlain, fun plain => absurd plain notPlain,
      fun plain => absurd plain notPlain⟩
  | scalar notIndicator read =>
    exact .scalar (valueShaped_of_notEntry mayOpen notIndicator notEntry read)

/-- Behind a colon or a dash a comment may open in front of a token. -/
theorem Cursor.mayOpen_of_more {cur : Cursor} (closed : blankOrEnd cur.rest = true)
    (more : cur.token.endsDocument = false) : cur.token.here.commentMayOpen = true := by
  refine (Cursor.mayOpen_of_blankOrEnd closed ?_).2
  intro atEnd
  simp [Token.endsDocument, Token.atEnd, atEnd] at more

mutual

theorem ReadsValue.wellShaped {floor : Nat} {cur last : Cursor} {v : Value} :
    ReadsValue floor cur v last → cur.token.here.commentMayOpen = true → v.WellShaped false
  | .sequence _ itemsRead, _ => itemsRead.wellShaped
  | .mapping _ _ entriesRead, _ => entriesRead.wellShaped
  | .plain _ notEntry valueRead, mayOpen => valueRead.wellShaped mayOpen notEntry

theorem ReadsEntries.wellShaped {column : Nat} {cur last : Cursor} {id : NodeId} {es : List Entry} :
    ReadsEntries column cur es last → Value.WellShaped false (.mapping ⟨id, .block, es⟩)
  | .last token keyRead valueRead _ => by
    have key := keyShaped_of_readKey token keyRead
    have value := valueRead.slotShaped (blankOrEnd_of_readKey keyRead)
    exact .blockMapping (by simp) (by simpa using key) (by simpa using value) (by simp)
  | .more token keyRead valueRead _ others => by
    have key := keyShaped_of_readKey token keyRead
    have value := valueRead.slotShaped (blankOrEnd_of_readKey keyRead)
    have mapping : Value.WellShaped false (.mapping ⟨id, .block, _⟩) := others.wellShaped
    cases mapping with
    | blockMapping nonempty keys values commas =>
      exact .blockMapping (by simp) (List.forall_mem_cons.mpr ⟨key, keys⟩)
        (List.forall_mem_cons.mpr ⟨value, values⟩) (List.forall_mem_cons.mpr ⟨rfl, commas⟩)

theorem ReadsEntryValue.slotShaped {column : Nat} {cur last : Cursor} {v : Value} :
    ReadsEntryValue column cur v last → blankOrEnd cur.rest = true → v.SlotShaped false
  | .absent empty _, _ => .absent empty
  | .inline more _ _ notEntry valueRead, closed =>
    .value (valueRead.wellShaped (cur.mayOpen_of_more closed more) notEntry)
  | .nested more _ _ valueRead, closed =>
    .value (valueRead.wellShaped (cur.mayOpen_of_more closed more))
  | .sequence _ _ _ _ itemsRead, _ => .value itemsRead.wellShaped

theorem ReadsItems.wellShaped {column : Nat} {cur last : Cursor} {id : NodeId} {is : List Item} :
    ReadsItems column cur is last → Value.WellShaped false (.sequence ⟨id, .block, is⟩)
  | .last _ _ opens valueRead _ => by
    have value := valueRead.slotShaped opens
    exact .blockSequence (by simp) (by simpa using value) (by simp) (by simp)
  | .more _ _ opens valueRead _ others => by
    have value := valueRead.slotShaped opens
    have sequence : Value.WellShaped false (.sequence ⟨id, .block, _⟩) := others.wellShaped
    cases sequence with
    | blockSequence nonempty values dashes commas =>
      exact .blockSequence (by simp) (List.forall_mem_cons.mpr ⟨value, values⟩)
        (List.forall_mem_cons.mpr ⟨rfl, dashes⟩) (List.forall_mem_cons.mpr ⟨rfl, commas⟩)

theorem ReadsItemValue.slotShaped {column : Nat} {cur last : Cursor} {v : Value} :
    ReadsItemValue column cur v last → blankOrEnd cur.rest = true → v.SlotShaped false
  | .absent empty _, _ => .absent empty
  | .value more _ valueRead, closed =>
    .value (valueRead.wellShaped (cur.mayOpen_of_more closed more))

end

/-! ## Documents -/

/-- The start of a text, and any place where a comment may open. -/
theorem Cursor.mayOpen_token {cur : Cursor} (mayOpen : cur.commentMayOpen = true)
    (more : cur.token.endsDocument = false) : cur.token.here.commentMayOpen = true := by
  have here : cur.token.here.commentMayOpen = openAfter cur.commentMayOpen cur.token.lead := rfl
  rw [here]
  by_cases empty : cur.token.lead = []
  · rw [empty]
    exact mayOpen
  · refine openAfter_of_trivia cur.trivia_token ?_ empty
    intro atEnd
    simp [Token.endsDocument, Token.atEnd, atEnd] at more

theorem ReadsBody.slotShaped {cur last : Cursor} {v : Value} (h : ReadsBody cur v last)
    (mayOpen : cur.token.endsDocument = false → cur.token.here.commentMayOpen = true) :
    v.SlotShaped false := by
  cases h with
  | absent empty _ => exact .absent empty
  | value more valueRead => exact .value (valueRead.wellShaped (mayOpen more))

theorem blankOrEnd_of_opensDocument {t : Text} (h : opensDocument t = true) :
    blankOrEnd (t.drop 3) = true := by
  unfold opensDocument at h
  split at h
  · exact h
  · contradiction

theorem blankOrEnd_of_closesDocument {t : Text} (h : closesDocument t = true) :
    blankOrEnd (t.drop 3) = true := by
  unfold closesDocument at h
  split at h
  · exact h
  · contradiction

/-- Whatever a document ends with, a comment may open in front of the next body: an end marker
stands before a blank, and so does the start marker that follows an unmarked end. -/
theorem ReadsDocument.slotShaped {cur last : Cursor} {d : Document} (h : ReadsDocument cur d last)
    (mayOpen : cur.token.endsDocument = false → cur.token.here.commentMayOpen = true) :
    d.body.SlotShaped false ∧
      (last.token.endsDocument = false → last.token.here.commentMayOpen = true) := by
  cases h with
  | document start _ _ bodyRead ending =>
    constructor
    · refine bodyRead.slotShaped ?_
      rcases readDocumentStart_eq.mp start with ⟨marker, -, rfl⟩ | ⟨-, -, rfl⟩
      · have opens := (Bool.and_eq_true_iff.mp marker).2
        exact Cursor.mayOpen_of_more (blankOrEnd_of_opensDocument opens)
      · exact mayOpen
    · intro more
      obtain ⟨-, ⟨-, marker, rfl⟩ | ⟨-, -, ends, rfl⟩⟩ := readDocumentEnd_eq_ok.mp ending
      · have closes := (Bool.and_eq_true_iff.mp marker).2
        exact Cursor.mayOpen_of_more (blankOrEnd_of_closesDocument closes) more
      · rw [Cursor.token_token] at more
        exact Bool.noConfusion (more.symm.trans ends)

theorem ReadsDocuments.slotShaped {cur : Cursor} {ds : List Document} {trailer : Text}
    (h : ReadsDocuments cur ds trailer)
    (mayOpen : cur.token.endsDocument = false → cur.token.here.commentMayOpen = true) :
    ∀ d ∈ ds, d.body.SlotShaped false := by
  induction h with
  | last documentRead _ =>
    intro d inside
    rw [List.mem_singleton.mp inside]
    exact (documentRead.slotShaped mayOpen).1
  | more documentRead _ _ ih =>
    obtain ⟨first, next⟩ := documentRead.slotShaped mayOpen
    exact List.forall_mem_cons.mpr ⟨first, ih next⟩

/-- Every document of a stream that was read is well-shaped, down to its scalars. -/
theorem wellShaped_of_parse {text : Text} {s : Stream} (parsed : parse text = .ok s) :
    ∀ d ∈ s.documents, d.body.SlotShaped false :=
  ReadsDocuments.slotShaped (readsStream_of_parse parsed) (Cursor.mayOpen_token rfl)

theorem wellShaped_of_parse_annotatedText :
    ∃ s, parse annotatedText = .ok s ∧ s.nodes.length = 34 ∧
      ∀ d ∈ s.documents, d.body.SlotShaped false := by
  obtain ⟨s, parsed, size⟩ : ∃ s, parse annotatedText = .ok s ∧ s.nodes.length = 34 :=
    exists_parse (by decide +kernel)
  exact ⟨s, parsed, size, wellShaped_of_parse parsed⟩

/-- Keys that end in a colon or are a question mark, and a question mark in a flow sequence: each
is a plain scalar. -/
def colonKeyText : Text := "a::\n  ?: [?]\n".toList

/-- No rule for plain scalars alone keeps colons from their end, or lone question marks out. -/
theorem lastColon_of_parse_colonKeyText :
    ∃ s, parse colonKeyText = .ok s ∧
      (∃ found ∈ s.scalars, found.2.style = .plain ∧ found.2.text.getLast? = some ':') ∧
      ∃ found ∈ s.scalars, found.2.style = .plain ∧ found.2.text = ['?'] :=
  exists_parse (by decide +kernel)

end ConfigTree.Yaml
