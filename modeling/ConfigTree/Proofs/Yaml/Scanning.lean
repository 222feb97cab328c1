import ConfigTree.Proofs.Yaml.Unnumbered

/-!
# What the scanners take

Every scanner cuts the text in front of it in two without losing a character. `Cursor.Takes` says
this of cursors: between two cursors stands exactly the text taken, and the later one is where
that text leads.
-/

namespace ConfigTree

namespace Text

theorem trimEndWhile_isPrefix (p : Char → Bool) (t : Text) : trimEndWhile p t <+: t := by
  unfold trimEndWhile
  rw [← List.reverse_suffix, List.reverse_reverse]
  exact List.dropWhile_suffix p

theorem joinWith_isPrefix (sep : Char) {ps qs : List Text} (h : ps <+: qs) (ne : ps ≠ []) :
    joinWith sep ps <+: joinWith sep qs := by
  induction ps generalizing qs with
  | nil => exact absurd rfl ne
  | cons p ps ih =>
    obtain ⟨others, rfl⟩ := h
    cases ps with
    | nil =>
      cases others with
      | nil => exact List.prefix_rfl
      | cons q qs => exact List.prefix_append p _
    | cons p' ps =>
      rw [List.cons_append, List.cons_append, joinWith_cons_cons, joinWith_cons_cons]
      have inner := ih (List.prefix_append (p' :: ps) others) (List.cons_ne_nil _ _)
      exact (List.prefix_append_right_inj _).mpr (List.cons_prefix_cons.mpr ⟨rfl, inner⟩)

/-- A prefix together with what is left after as many characters is the text. -/
theorem append_drop_of_isPrefix {s t : Text} (h : s <+: t) : s ++ t.drop s.length = t := by
  obtain ⟨rest, rfl⟩ := h
  rw [List.drop_left]

end Text

namespace Yaml

/-- From `cur`, reading `taken` leads to `last`. -/
def Cursor.Takes (cur : Cursor) (taken : Text) (last : Cursor) : Prop :=
  cur.rest = taken ++ last.rest ∧ last = cur.past taken last.rest

namespace Cursor.Takes

theorem rest_eq {cur last : Cursor} {taken : Text} (h : cur.Takes taken last) :
    cur.rest = taken ++ last.rest := h.1

theorem refl (cur : Cursor) : cur.Takes [] cur := ⟨rfl, rfl⟩

theorem past {cur : Cursor} {taken rest : Text} (h : cur.rest = taken ++ rest) :
    cur.Takes taken (cur.past taken rest) := ⟨h, rfl⟩

theorem trans {cur mid last : Cursor} {s t : Text} (first : cur.Takes s mid)
    (second : mid.Takes t last) : cur.Takes (s ++ t) last := by
  refine ⟨?_, ?_⟩
  · rw [first.1, second.1, List.append_assoc]
  · have position := second.2
    rw [first.2, Cursor.past_past] at position
    exact position

theorem length_eq {cur last : Cursor} {taken : Text} (h : cur.Takes taken last) :
    cur.rest.length = taken.length + last.rest.length := by
  rw [h.1, List.length_append]

theorem length_le {cur last : Cursor} {taken : Text} (h : cur.Takes taken last) :
    last.rest.length ≤ cur.rest.length := by
  have := h.length_eq
  omega

theorem length_lt {cur last : Cursor} {taken : Text} (h : cur.Takes taken last) (ne : taken ≠ []) :
    last.rest.length < cur.rest.length := by
  have := h.length_eq
  have := List.length_pos_iff.mpr ne
  omega

end Cursor.Takes

/-- The token ahead is reached over its lead. -/
theorem Cursor.takes_token (cur : Cursor) : cur.Takes cur.token.lead cur.token.here :=
  ⟨cur.lead_append_token.symm, rfl⟩

theorem Cursor.takes_of_token {cur here : Cursor} {lead : Text} (h : cur.token = ⟨lead, here⟩) :
    cur.Takes lead here := by
  have := cur.takes_token
  rwa [h] at this

theorem Cursor.length_token_le (cur : Cursor) : cur.token.here.rest.length ≤ cur.rest.length :=
  cur.takes_token.length_le

/-- The lead of the token ahead is all the trivia in front of it. -/
theorem Cursor.trivia_token (cur : Cursor) :
    trivia cur.commentMayOpen false (cur.token.lead ++ cur.token.here.rest) =
      (cur.token.lead, cur.token.here.rest) := by
  rw [cur.lead_append_token]
  rfl

/-- What the trivia leave starts no further trivia. -/
theorem trivia_of_rest (mayOpen inComment : Bool) (t : Text) :
    trivia (openAfter mayOpen (trivia mayOpen inComment t).1) false
      (trivia mayOpen inComment t).2 = ([], (trivia mayOpen inComment t).2) := by
  fun_induction trivia mayOpen inComment t with
  | case1 => rfl
  | case2 => simp_all [openAfter]
  | case3 => simp_all [openAfter]
  | case4 => simp_all [openAfter]
  | case5 mayOpen _ c cs notComment notBlank notOpening =>
    simp only [openAfter, trivia, notBlank, notOpening, if_false, Bool.false_eq_true]

/-- Looking for the token at a token finds it at once. -/
theorem Cursor.token_token (cur : Cursor) : cur.token.here.token = ⟨[], cur.token.here⟩ := by
  have h := trivia_of_rest cur.commentMayOpen false cur.rest
  simp only [Cursor.token, Cursor.past] at h ⊢
  rw [h]
  rfl

theorem Cursor.token_of_token {cur here : Cursor} {lead : Text} (h : cur.token = ⟨lead, here⟩) :
    here.token = ⟨[], here⟩ := by
  have := cur.token_token
  rwa [h] at this

/-! ## Scalars -/

theorem scanSingleQuoted_eq {t text rest : Text} (h : scanSingleQuoted t = some (text, rest)) :
    t = text ++ '\'' :: rest := by
  fun_induction scanSingleQuoted t generalizing text rest with
  | case1 => contradiction
  | case2 cs ih =>
    obtain ⟨⟨inner, after⟩, found, same⟩ := Option.map_eq_some_iff.mp h
    cases same
    rw [ih found, List.cons_append, List.cons_append]
  | case3 cs => cases h; rfl
  | case4 c cs _ _ ih =>
    obtain ⟨⟨inner, after⟩, found, same⟩ := Option.map_eq_some_iff.mp h
    cases same
    rw [ih found, List.cons_append]

theorem scanDoubleQuoted_eq {t text rest : Text} (h : scanDoubleQuoted t = some (text, rest)) :
    t = text ++ '"' :: rest := by
  fun_induction scanDoubleQuoted t generalizing text rest with
  | case1 => contradiction
  | case2 c cs ih =>
    obtain ⟨⟨inner, after⟩, found, same⟩ := Option.map_eq_some_iff.mp h
    cases same
    rw [ih found, List.cons_append, List.cons_append]
  | case3 cs => contradiction
  | case4 cs => cases h; rfl
  | case5 c cs _ _ _ ih =>
    obtain ⟨⟨inner, after⟩, found, same⟩ := Option.map_eq_some_iff.mp h
    cases same
    rw [ih found, List.cons_append]

theorem plainRun_isPrefix (inFlow afterBlank : Bool) (t : Text) :
    plainRun inFlow afterBlank t <+: t := by
  fun_induction plainRun inFlow afterBlank t with
  | case6 _ c cs _ _ _ _ ih => exact List.cons_prefix_cons.mpr ⟨rfl, ih⟩
  | _ => exact List.nil_prefix

theorem scanPlain_append (inFlow : Bool) (t : Text) :
    (scanPlain inFlow t).1 ++ (scanPlain inFlow t).2 = t :=
  Text.append_drop_of_isPrefix
    ((Text.trimEndWhile_isPrefix isInlineBlank _).trans (plainRun_isPrefix inFlow false t))

/-- A scalar stands in front of its rest as it is written. -/
theorem scanScalar_eq {inFlow : Bool} {t : Text} {found : Scanned}
    (h : scanScalar inFlow t = some found)
    (lead : Text) : t = (Scalar.fresh lead found.style found.text).written ++ found.rest := by
  unfold scanScalar at h
  split at h
  · obtain ⟨⟨text, rest⟩, scanned, rfl⟩ := Option.map_eq_some_iff.mp h
    simp [scanSingleQuoted_eq scanned, Scalar.fresh, Scalar.written]
  · obtain ⟨⟨text, rest⟩, scanned, rfl⟩ := Option.map_eq_some_iff.mp h
    simp [scanDoubleQuoted_eq scanned, Scalar.fresh, Scalar.written]
  · injection h with h
    subst h
    exact (scanPlain_append inFlow t).symm

/-- What `readScalar` reads: the scalar in front, with the lead of its token. -/
theorem readScalar_eq_ok {inFlow : Bool} {tok : Token} {s : Scalar} {last : Cursor} :
    readScalar inFlow tok = .ok (s, last) ↔
      unsupported tok.here.rest = none ∧
      ∃ style text rest, scanScalar inFlow tok.here.rest = some ⟨style, text, rest⟩ ∧
        ¬ (style = .plain ∧ text = []) ∧ s = .fresh tok.lead style text ∧
        last = tok.here.past s.written rest := by
  unfold readScalar
  cases unsupported tok.here.rest with
  | some problem => simp [fail]
  | none =>
    cases scanScalar inFlow tok.here.rest with
    | none => simp [fail]
    | some found =>
      obtain ⟨style, text, rest⟩ := found
      by_cases empty : style = .plain ∧ text = []
      · simp [empty, fail]
      · simp only [empty, if_false, Except.ok.injEq, Prod.mk.injEq, true_and, Option.some.injEq,
          Scanned.mk.injEq]
        constructor
        · rintro ⟨rfl, rfl⟩
          exact ⟨style, text, rest, ⟨rfl, rfl, rfl⟩, empty, rfl, rfl⟩
        · rintro ⟨_, _, _, ⟨rfl, rfl, rfl⟩, _, rfl, rfl⟩
          exact ⟨rfl, rfl⟩

theorem written_ne_nil {s : Scalar} (h : ¬ (s.style = .plain ∧ s.text = [])) : s.written ≠ [] := by
  unfold Scalar.written
  cases style : s.style <;> simp_all

theorem readScalar_takes {inFlow : Bool} {tok : Token} {s : Scalar} {last : Cursor}
    (h : readScalar inFlow tok = .ok (s.unnumbered, last)) :
    tok.here.Takes s.written last ∧ s.written ≠ [] ∧ s.lead = tok.lead ∧ s.mark = none := by
  obtain ⟨-, style, text, rest, scanned, nonempty, fresh, rfl⟩ := readScalar_eq_ok.mp h
  have written : s.written = (Scalar.fresh tok.lead style text).written :=
    (congrArg Scalar.written fresh : s.unnumbered.written = _)
  refine ⟨.past ?_, ?_, congrArg Scalar.lead fresh, congrArg Scalar.mark fresh⟩
  · rw [written]
    exact scanScalar_eq scanned tok.lead
  · exact written ▸ written_ne_nil nonempty

/-- The key of a block mapping stands in front as written, before its gap and its colon. -/
theorem scanKey_eq {t : Text} {found : ScannedKey} (h : scanKey t = some found) (lead : Text) :
    t = (Scalar.fresh lead found.style found.text).written ++ found.gap ++ ':' :: found.rest ∧
      ¬ (found.style = .plain ∧ found.text = []) := by
  unfold scanKey at h
  split at h
  · contradiction
  · split at h
    · contradiction
    · rename_i style text rest scanned
      split at h
      · contradiction
      · rename_i nonempty
        split at h
        · rename_i gap after cut
          split at h
          · cases h
            refine ⟨?_, nonempty⟩
            have joined := Text.span_append isInlineBlank rest
            rw [cut] at joined
            rw [List.append_assoc, joined]
            exact scanScalar_eq scanned lead
          · contradiction
        · contradiction

/-- What `readKey` reads: the key that `scanKey` finds. -/
theorem readKey_eq_ok {tok : Token} {key : Scalar} {gap : Text} {last : Cursor} :
    readKey tok = .ok ((key, gap), last) ↔
      unsupported tok.here.rest = none ∧
      ∃ rest, scanKey tok.here.rest = some ⟨key.style, key.text, gap, rest⟩ ∧
        key = .fresh [] key.style key.text ∧
          last = tok.here.past (key.written ++ gap ++ [':']) rest := by
  unfold readKey
  cases scanKey tok.here.rest with
  | none => simp [fail]
  | some found =>
    obtain ⟨style, text, gap', rest⟩ := found
    cases unsupported tok.here.rest with
    | some problem => simp [fail]
    | none =>
      simp only [Except.ok.injEq, Prod.mk.injEq, true_and, Option.some.injEq, ScannedKey.mk.injEq]
      constructor
      · rintro ⟨⟨rfl, rfl⟩, rfl⟩
        exact ⟨rest, ⟨rfl, rfl, rfl, rfl⟩, rfl, rfl⟩
      · rintro ⟨_, ⟨rfl, rfl, rfl, rfl⟩, same, rfl⟩
        exact ⟨⟨same.symm, rfl⟩, by rw [← same]⟩

theorem readKey_takes {tok : Token} {key : Scalar} {gap : Text} {last : Cursor}
    (h : readKey tok = .ok ((key.unnumbered, gap), last)) :
    tok.here.Takes (key.written ++ gap ++ [':']) last ∧ key.written ≠ [] ∧ key.lead = [] ∧
      key.mark = none := by
  obtain ⟨-, rest, scanned, fresh, rfl⟩ := readKey_eq_ok.mp h
  obtain ⟨cut, nonempty⟩ := scanKey_eq scanned []
  rw [← fresh] at cut
  refine ⟨.past ?_, written_ne_nil nonempty, congrArg Scalar.lead fresh, congrArg Scalar.mark fresh⟩
  rw [cut, List.append_assoc _ [':']]
  rfl

/-- The key of a flow mapping. -/
theorem readFlowKey_eq_ok {here : Cursor} {key : Scalar} {gap : Text} {last : Cursor} :
    readFlowKey here = .ok ((key, gap), last) ↔
      ∃ mid rest, readScalar true ⟨[], here⟩ = .ok (key, mid) ∧
        Text.span isInlineBlank mid.rest = (gap, ':' :: rest) ∧
          last = mid.past (gap ++ [':']) rest := by
  unfold readFlowKey
  cases readScalar true ⟨[], here⟩ with
  | error e => simp [bind, Except.bind]
  | ok found =>
    obtain ⟨key', mid⟩ := found
    simp only [bind, Except.bind]
    split
    · rename_i gap' rest cut
      simp only [Except.ok.injEq, Prod.mk.injEq]
      constructor
      · rintro ⟨⟨rfl, rfl⟩, rfl⟩
        exact ⟨mid, rest, ⟨rfl, rfl⟩, cut, rfl⟩
      · rintro ⟨_, _, ⟨rfl, rfl⟩, again, rfl⟩
        cases cut.symm.trans again
        exact ⟨⟨rfl, rfl⟩, rfl⟩
    · rename_i gap' after notColon cut'
      simp only [fail, reduceCtorEq, false_iff]
      rintro ⟨_, rest, same, cut, -⟩
      cases same
      exact notColon rest (Prod.mk.inj (cut'.symm.trans cut)).2

theorem readFlowKey_takes {here : Cursor} {key : Scalar} {gap : Text} {last : Cursor}
    (h : readFlowKey here = .ok ((key.unnumbered, gap), last)) :
    here.Takes (key.written ++ gap ++ [':']) last ∧ key.written ≠ [] ∧ key.lead = [] ∧
      key.mark = none := by
  obtain ⟨mid, rest, read, cut, rfl⟩ := readFlowKey_eq_ok.mp h
  obtain ⟨taken, nonempty, lead, mark⟩ := readScalar_takes read
  refine ⟨?_, nonempty, lead, mark⟩
  have joined := Text.span_append isInlineBlank mid.rest
  rw [cut] at joined
  rw [List.append_assoc]
  exact taken.trans (.past (by rw [← joined]; simp))

theorem contentLines_isPrefix (floor : Nat) (lines : List Text) :
    contentLines floor lines <+: lines := by
  fun_induction contentLines floor lines with
  | case3 line lines _ _ ih => exact List.cons_prefix_cons.mpr ⟨rfl, ih⟩
  | case5 line lines _ _ ih => exact List.cons_prefix_cons.mpr ⟨rfl, ih⟩
  | _ => exact List.nil_prefix

/-- A literal or folded scalar is the rest of its first line and the content lines after it. -/
theorem scanBlockScalar_eq (floor : Nat) (t : Text) :
    ∃ header lines, Text.splitOn '\n' t = header :: lines ∧
      (scanBlockScalar floor t).1 = Text.joinWith '\n' (header :: contentLines floor lines) := by
  unfold scanBlockScalar
  cases split : Text.splitOn '\n' t with
  | nil => exact absurd split (Text.splitOn_ne_nil '\n' t)
  | cons header lines => exact ⟨header, lines, rfl, rfl⟩

theorem scanBlockScalar_append (floor : Nat) (t : Text) :
    (scanBlockScalar floor t).1 ++ (scanBlockScalar floor t).2 = t := by
  refine Text.append_drop_of_isPrefix ?_
  obtain ⟨header, lines, split, text⟩ := scanBlockScalar_eq floor t
  have whole := Text.joinWith_splitOn '\n' t
  rw [split] at whole
  have content := contentLines_isPrefix floor lines
  have kept := Text.joinWith_isPrefix '\n' (List.cons_prefix_cons.mpr ⟨rfl, content⟩ :
    header :: contentLines floor lines <+: header :: lines) (List.cons_ne_nil _ _)
  rw [whole, ← text] at kept
  exact kept

theorem readBlockScalar_eq (style : ScalarStyle) (floor : Nat) (tok : Token) (t : Text) :
    readBlockScalar style floor tok t =
      let s := Scalar.fresh tok.lead style (scanBlockScalar floor t).1
      (s, tok.here.past s.written (scanBlockScalar floor t).2) := rfl

/-- The styles with an indicator in front. -/
def isIndicatorOf (style : ScalarStyle) (c : Char) : Prop :=
  (style = .literal ∧ c = '|') ∨ (style = .folded ∧ c = '>')

theorem readBlockScalar_takes {style : ScalarStyle} {c : Char} {floor : Nat} {tok : Token}
    {rest : Text} {s : Scalar} {last : Cursor} (indicator : isIndicatorOf style c)
    (opening : tok.here.rest = c :: rest)
    (h : readBlockScalar style floor tok rest = (s.unnumbered, last)) :
    tok.here.Takes s.written last ∧ s.written ≠ [] ∧ s.lead = tok.lead ∧ s.mark = none := by
  rw [readBlockScalar_eq] at h
  obtain ⟨fresh, rfl⟩ := Prod.mk.inj h
  have written : s.written = c :: (scanBlockScalar floor rest).1 := by
    rw [show s.written = s.unnumbered.written from rfl, ← fresh]
    rcases indicator with ⟨rfl, rfl⟩ | ⟨rfl, rfl⟩ <;> rfl
  refine ⟨?_, by simp [written], congrArg Scalar.lead fresh.symm, congrArg Scalar.mark fresh.symm⟩
  rw [fresh, show s.unnumbered.written = s.written from rfl, written]
  refine .past ?_
  rw [opening, List.cons_append, scanBlockScalar_append]

/-- What stands before a comma and the comma itself, or nothing. -/
def commaText : Option Text → Text
  | none => []
  | some lead => lead ++ [',']

theorem readComma_takes {closing : Char} {cur last : Cursor} {comma : Option Text}
    (h : readComma closing cur = .ok (comma, last)) : cur.Takes (commaText comma) last := by
  unfold readComma at h
  split at h
  rename_i lead here token
  split at h
  · contradiction
  · rename_i c rest opening
    split at h
    · rename_i isComma
      cases h
      exact (cur.takes_of_token token).trans (.past (by rw [opening, isComma]; rfl))
    · split at h
      · cases h
        exact .refl cur
      · contradiction

/-! ## What comes next -/

theorem nextEntry_eq_none {column : Nat} {cur : Cursor} :
    nextEntry column cur = .ok none ↔
      cur.token.endsDocument = true ∨ cur.token.column < column ∨
        cur.token.onNewLine = true ∧ cur.token.column = column ∧
          opensItem cur.token.here.rest = true := by
  unfold nextEntry
  grind

theorem nextEntry_eq_some {column : Nat} {cur : Cursor} {tok : Token} :
    nextEntry column cur = .ok (some tok) ↔
      tok = cur.token ∧ cur.token.endsDocument = false ∧ cur.token.onNewLine = true ∧
        cur.token.column = column ∧ opensItem cur.token.here.rest = false := by
  unfold nextEntry
  grind

theorem nextItem_eq_none {column : Nat} {cur : Cursor} :
    nextItem column cur = .ok none ↔
      cur.token.endsDocument = true ∨ cur.token.column < column ∨
        cur.token.column = column ∧ opensItem cur.token.here.rest = false := by
  unfold nextItem
  grind

theorem nextItem_eq_some {column : Nat} {cur : Cursor} {tok : Token} :
    nextItem column cur = .ok (some tok) ↔
      tok = cur.token ∧ cur.token.endsDocument = false ∧ cur.token.column = column ∧
        opensItem cur.token.here.rest = true := by
  unfold nextItem
  grind

theorem opensItem_eq_true {t : Text} (h : opensItem t = true) :
    ∃ rest, t = '-' :: rest ∧ blankOrEnd rest = true := by
  unfold opensItem at h
  split at h
  · exact ⟨_, rfl, h⟩
  · contradiction

theorem readInlineValue_eq_ok {floor : Nat} {tok : Token} {result : Value × Cursor} :
    readInlineValue floor tok = .ok result ↔
      opensItem tok.here.rest = false ∧ opensEntry tok.here.rest = false ∧
        readPlainValue floor tok = .ok result := by
  unfold readInlineValue fail
  grind

theorem readDocumentStart_eq {cur last : Cursor} {opening : Option Text} :
    readDocumentStart cur = (opening, last) ↔
      (cur.token.atDocumentStart = true ∧ opening = some cur.token.lead ∧
        last = cur.token.here.past ['-', '-', '-'] (cur.token.here.rest.drop 3)) ∨
      (cur.token.atDocumentStart = false ∧ opening = none ∧ last = cur) := by
  unfold readDocumentStart
  grind

theorem readDocumentEnd_eq_ok {cur last : Cursor} {tail : Text} {marked : Bool} :
    readDocumentEnd cur = .ok ((tail, marked), last) ↔
      tail = cur.token.lead ∧
      ((marked = true ∧ cur.token.atDocumentEnd = true ∧
          last = cur.token.here.past ['.', '.', '.'] (cur.token.here.rest.drop 3)) ∨
        (marked = false ∧ cur.token.atDocumentEnd = false ∧ cur.token.endsDocument = true ∧
          last = cur.token.here)) := by
  unfold readDocumentEnd fail
  grind

theorem opensDocument_eq {t : Text} (h : opensDocument t = true) :
    t = ['-', '-', '-'] ++ t.drop 3 := by
  unfold opensDocument at h
  split at h
  · rfl
  · contradiction

theorem closesDocument_eq {t : Text} (h : closesDocument t = true) :
    t = ['.', '.', '.'] ++ t.drop 3 := by
  unfold closesDocument at h
  split at h
  · rfl
  · contradiction

theorem readDocumentStart_takes {cur last : Cursor} {opening : Option Text}
    (h : readDocumentStart cur = (opening, last)) :
    cur.Takes (if opening.isSome then opening.getD [] ++ ['-', '-', '-'] else opening.getD [])
      last := by
  rcases readDocumentStart_eq.mp h with ⟨start, rfl, rfl⟩ | ⟨-, rfl, rfl⟩
  · have marker := (Bool.and_eq_true_iff.mp start).2
    exact cur.takes_token.trans (.past (opensDocument_eq marker))
  · exact .refl _

theorem readDocumentEnd_takes {cur last : Cursor} {tail : Text} {marked : Bool}
    (h : readDocumentEnd cur = .ok ((tail, marked), last)) :
    cur.Takes (if marked then tail ++ ['.', '.', '.'] else tail) last := by
  obtain ⟨rfl, ⟨rfl, ending, rfl⟩ | ⟨rfl, -, -, rfl⟩⟩ := readDocumentEnd_eq_ok.mp h
  · have marker := (Bool.and_eq_true_iff.mp ending).2
    exact cur.takes_token.trans (.past (closesDocument_eq marker))
  · exact cur.takes_token

end Yaml

end ConfigTree
