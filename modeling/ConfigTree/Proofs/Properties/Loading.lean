import ConfigTree.Proofs.Properties.Lossless
import ConfigTree.Proofs.Properties.LogicalLines
import Mathlib.Data.List.Forall2

/-!
# What a loader reads from a properties file

A loader joins lines before it looks for keys and values. Here nothing is joined, so that every
character is kept, and keys and values have their continuations inside. Both readings agree on where
entries begin and end. They agree on the entry as well, unless it has no delimiter and a
continuation stands beside the blanks that end its key.
-/

namespace ConfigTree.Properties

/-- Whether a loader finds the same key and the same value in an entry. -/
def Entry.Settled (e : Entry) : Prop :=
  e.delimiter = .none → joined e.value.text ≠ [] →
    Text.hasLineEnd e.key = false ∧ ∀ c ∈ (joined e.value.text).head?, c ≠ '=' ∧ c ≠ ':'

/-- The key and the value that an entry stands for. -/
def Entry.meaning (e : Entry) : Text × Text := (e.keyText, e.value.meaning)

theorem solid_of_goesOn {c : Char} (goesOn : ¬ (isSpace c = true ∨ c = '=' ∨ c = ':')) :
    isBlank c = false ∧ isLineEnd c = false := by
  simpa [isSpace] using (not_or.mp goesOn).1

/-- No value has a line feed in front, so a value read by itself has the continuations that were
scanned. -/
theorem head_scanValue (t : Text) : (scanValue false t).1.head? ≠ some '\n' := by
  fun_cases scanValue false t with
  | case5 c cs _ notEnd =>
    rintro ⟨⟩
    simp [isLineEnd] at notEnd
  | _ => simp

theorem scanValue_escape {c : Char} {cs : Text}
    (notBoth : ∀ ds, c = '\r' → cs = '\n' :: ds → False) :
    scanValue false ('\\' :: c :: cs) =
      ('\\' :: c :: (scanValue false cs).1, (scanValue false cs).2) := by
  rw [scanValue, scanValue]
  · simp [isLineEnd]
  · exact notBoth
  · simp

theorem scanValue_cons {c : Char} (notEnd : isLineEnd c = false) (notSlash : c ≠ '\\') (cs : Text) :
    scanValue false (c :: cs) = (c :: (scanValue false cs).1, (scanValue false cs).2) := by
  rw [scanValue]
  · simp [notEnd, notSlash]
  · rintro _ rfl
    contradiction

theorem scanValue_lineEnd {c : Char} (isEnd : isLineEnd c = true) (cs : Text) :
    scanValue false (c :: cs) = ([], c :: cs) := by
  unfold scanValue
  split
  · contradiction
  · rename_i same
    cases same
    rfl
  · simp_all

/-- A value goes on to the end of its logical line. -/
theorem takeLine_scanValue (continued : Bool) (t : Text) :
    takeLine continued t =
        ((takeLine continued (scanValue false t).1).1, (scanValue false t).2) ∧
      (takeLine continued (scanValue false t).1).2 = [] := by
  fun_induction takeLine continued t with
  | case1 => exact ⟨rfl, rfl⟩
  | case2 => exact ⟨rfl, rfl⟩
  | case3 _ cs ih => exact ih
  | case4 continued c cs notBoth isEnd ih =>
    have notBoth' : ∀ ds, c = '\r' → (scanValue false cs).1 = '\n' :: ds → False :=
      fun ds _ same => head_scanValue cs (by rw [same]; rfl)
    rw [scanValue_escape notBoth, takeLine_lineBreak continued isEnd notBoth']
    exact ih
  | case5 continued c cs notBoth notEnd line rest taken ih =>
    rw [taken] at ih
    obtain ⟨same, whole⟩ := ih
    obtain ⟨rfl, rfl⟩ := Prod.mk.inj same
    rw [scanValue_escape notBoth, takeLine_escape continued (by simpa using notEnd)]
    exact ⟨rfl, whole⟩
  | case6 continued c cs _ _ _ isEnd =>
    rw [scanValue_lineEnd isEnd]
    exact ⟨rfl, rfl⟩
  | case7 continued c cs notLast _ notEscape notEnd blank ih =>
    have notSlash := ne_slash_of_isBlank blank.2
    rw [scanValue_cons (by simpa using notEnd) notSlash, takeLine_cons continued notSlash,
      if_neg notEnd, if_pos blank]
    exact ih
  | case8 continued c cs notLast _ notEscape notEnd counts line rest taken ih =>
    rw [taken] at ih
    obtain ⟨same, whole⟩ := ih
    obtain ⟨rfl, rfl⟩ := Prod.mk.inj same
    have notSlash := ne_slash notLast notEscape
    rw [scanValue_cons (by simpa using notEnd) notSlash, takeLine_cons continued notSlash,
      if_neg notEnd, if_neg counts]
    exact ⟨rfl, whole⟩

/-- Whether a continuation comes right before what follows a key. -/
def endsContinued (continued : Bool) (key : Text) : Bool :=
  if key = [] then continued else Text.hasLineEnd key

theorem endsContinued_cons (continued : Bool) (c : Char) (key : Text) :
    endsContinued continued (c :: key) = endsContinued (isLineEnd c) key := by
  cases key with
  | nil => simp [endsContinued, Text.hasLineEnd, isLineEnd]
  | cons d ds => simp [endsContinued, Text.hasLineEnd]

/-- The logical line goes on behind a key. -/
theorem takeLine_scanKey (continued : Bool) (t : Text) :
    takeLine continued t =
        ((takeLine continued (scanKey t).1).1 ++
            (takeLine (endsContinued continued (scanKey t).1) (scanKey t).2).1,
          (takeLine (endsContinued continued (scanKey t).1) (scanKey t).2).2) ∧
      (takeLine continued (scanKey t).1).2 = [] := by
  induction t using scanKey_induction generalizing continued with
  | nil | last => exact ⟨rfl, rfl⟩
  | lineBreak cs ih =>
    rw [scanKey_lineBreak]
    simp only [endsContinued_cons]
    exact ih true
  | escape c cs notBoth ih =>
    rw [scanKey_escape notBoth]
    simp only [endsContinued_cons]
    by_cases isEnd : isLineEnd c = true
    · rw [takeLine_lineBreak continued isEnd notBoth,
        takeLine_lineBreak continued isEnd (notBoth_scanKey cs), isEnd]
      exact ih true
    · have solid := Bool.eq_false_iff.mpr isEnd
      obtain ⟨same, whole⟩ := ih false
      rw [takeLine_escape _ solid, takeLine_escape _ solid, solid, same]
      exact ⟨rfl, whole⟩
  | stop c cs stops =>
    rw [scanKey_stop stops]
    exact ⟨rfl, rfl⟩
  | solid c cs notSlash goesOn ih =>
    obtain ⟨notBlank, notEnd⟩ := solid_of_goesOn goesOn
    obtain ⟨same, whole⟩ := ih false
    rw [scanKey_cons notSlash goesOn, takeLine_cons _ notSlash, takeLine_cons _ notSlash,
      endsContinued_cons, notEnd, notBlank, same]
    simp [whole]

/-- A key without its continuations ends where the key ends. -/
theorem cutKey_scanKey (continued : Bool) (t more : Text) :
    cutKey ((takeLine continued (scanKey t).1).1 ++ more) =
      ((takeLine continued (scanKey t).1).1 ++ (cutKey more).1, (cutKey more).2) := by
  induction t using scanKey_induction generalizing continued with
  | nil | last => rfl
  | lineBreak cs ih => exact ih true
  | escape c cs notBoth ih =>
    rw [scanKey_escape notBoth]
    by_cases isEnd : isLineEnd c = true
    · rw [takeLine_lineBreak continued isEnd (notBoth_scanKey cs)]
      exact ih true
    · have solid := Bool.eq_false_iff.mpr isEnd
      simp [takeLine_escape _ solid, cutKey, ih]
  | stop c cs stops =>
    rw [scanKey_stop stops]
    rfl
  | solid c cs notSlash goesOn ih =>
    obtain ⟨notBlank, notEnd⟩ := solid_of_goesOn goesOn
    rw [scanKey_cons notSlash goesOn, takeLine_cons _ notSlash, notEnd, notBlank]
    simp only [Bool.false_eq_true, and_false, if_false, List.cons_append]
    rw [cutKey]
    · simp [notBlank, (not_or.mp goesOn).2, ih]
    · intro _ _ same
      exact (notSlash same).elim

theorem notInfix_of_suffix {word s t : Text} (h : ¬ word <:+: t) (suffix : s <:+ t) :
    ¬ word <:+: s := fun inside => h (inside.trans suffix.isInfix)

/-- Resolving escapes and continuations at once is taking out the continuations first. -/
theorem unescapeFrom_eq {continued : Bool} {raw : Text} (whole : (takeLine continued raw).2 = [])
    (noCodePoint : ¬ ['\\', 'u'] <:+: raw) :
    unescapeFrom continued raw = resolved (takeLine continued raw).1 := by
  fun_induction unescapeFrom continued raw with
  | case1 => rfl
  | case2 => rfl
  | case3 _ a b c d cs => exact absurd (List.prefix_append _ _).isInfix noCodePoint
  | case4 _ cs => exact absurd (List.prefix_append _ _).isInfix noCodePoint
  | case5 _ cs ih => exact ih whole (notInfix_of_suffix noCodePoint ⟨['\\', '\r', '\n'], rfl⟩)
  | case6 continued cs =>
    -- A value ends at the second line feed.
    rw [takeLine_lineBreak continued rfl (by simp)] at whole
    contradiction
  | case7 continued c cs _ _ notBoth _ isEnd ih =>
    have notBoth' : ∀ ds, c = '\r' → cs = '\n' :: ds → False := notBoth
    rw [takeLine_lineBreak continued isEnd notBoth'] at whole ⊢
    exact ih whole (notInfix_of_suffix noCodePoint ⟨['\\', c], rfl⟩)
  | case8 continued c cs _ _ _ _ notEnd ih =>
    have solid := Bool.eq_false_iff.mpr notEnd
    rw [takeLine_escape continued solid] at whole ⊢
    rw [ih whole (notInfix_of_suffix noCodePoint ⟨['\\', c], rfl⟩), resolved]
  | case9 continued c cs notLast _ _ _ _ notEscape blank ih =>
    have notSlash := ne_slash_of_isBlank blank.2
    rw [takeLine_cons continued notSlash, isLineEnd_of_isBlank blank.2, if_neg Bool.false_ne_true,
      if_pos blank] at whole ⊢
    exact ih whole (notInfix_of_suffix noCodePoint ⟨[c], rfl⟩)
  | case10 continued c cs notLast _ _ _ _ notEscape counts ih =>
    have notSlash := ne_slash notLast notEscape
    rw [takeLine_cons continued notSlash] at whole ⊢
    by_cases isEnd : isLineEnd c = true
    · rw [if_pos isEnd] at whole
      contradiction
    · rw [if_neg isEnd, if_neg counts] at whole ⊢
      rw [ih whole (notInfix_of_suffix noCodePoint ⟨[c], rfl⟩), resolved_cons notSlash]

/-! ## Entries -/

/-- The logical line of an entry. -/
def Entry.logicalLine (e : Entry) : Text :=
  joined e.key ++ ((if Text.hasLineEnd e.key then [] else e.gap) ++
    (e.delimiter.written ++ (e.value.lead ++ joined e.value.text)))

/-- What stands behind a key that was scanned. -/
theorem head_afterKey (t : Text) :
    ∀ c ∈ (scanKey t).2.head?, isSpace c = true ∨ c = '=' ∨ c = ':' := by
  fun_induction scanKey t <;> simp_all

section Cuts

variable {t afterKey afterGap afterDelimiter valueText rest : Text} {e : Entry}

theorem EntryCuts.gap_append (h : EntryCuts t afterKey afterGap afterDelimiter valueText e rest) :
    afterKey = e.gap ++ afterGap ∧ (∀ c ∈ e.gap, isBlank c = true) ∧
      ∀ c ∈ afterGap.head?, isBlank c = false := by
  obtain ⟨gap, after⟩ := Prod.mk.inj h.gap
  rw [← gap, ← after]
  exact ⟨(List.takeWhile_append_dropWhile).symm,
    fun c inside => List.all_eq_true.mp List.all_takeWhile c inside, head_dropWhile _ afterKey⟩

/-- What stands behind the delimiter, or behind the blanks if there is none. -/
theorem EntryCuts.value_append (h : EntryCuts t afterKey afterGap afterDelimiter valueText e rest) :
    afterGap = e.delimiter.written ++ (e.value.lead ++ valueText) ∧
      (∀ c ∈ e.value.lead, isBlank c = true) ∧ (e.delimiter = .none → e.value.lead = []) ∧
      ∀ c ∈ valueText.head?, isBlank c = false := by
  have delimiter := scanDelimiter_append afterGap
  rw [h.delimiter] at delimiter
  have cut := h.valueLead
  by_cases none : e.delimiter = .none
  · rw [if_pos none] at cut
    obtain ⟨lead, text⟩ := Prod.mk.inj cut
    have same : afterGap = valueText := by
      rw [← delimiter, none, text]
      rfl
    rw [← delimiter, ← lead, ← text]
    exact ⟨rfl, by simp, fun _ => rfl, by rw [text, ← same]; exact h.gap_append.2.2⟩
  · rw [if_neg none] at cut
    obtain ⟨lead, text⟩ := Prod.mk.inj cut
    rw [← delimiter, ← lead, ← text]
    exact ⟨by rw [List.takeWhile_append_dropWhile],
      fun c inside => List.all_eq_true.mp List.all_takeWhile c inside,
      fun same => (none same).elim, head_dropWhile _ afterDelimiter⟩

/-- An entry goes on to the end of its logical line. -/
theorem EntryCuts.takeLine_eq (h : EntryCuts t afterKey afterGap afterDelimiter valueText e rest) :
    takeLine false t = (e.logicalLine, rest) := by
  obtain ⟨key, -⟩ := takeLine_scanKey false t
  obtain ⟨gap, blank, -⟩ := h.gap_append
  obtain ⟨value, valueBlank, noLead, solid⟩ := h.value_append
  obtain ⟨text, -⟩ := takeLine_scanValue false valueText
  rw [h.key] at key
  rw [h.value] at text
  have continued : endsContinued false e.key = Text.hasLineEnd e.key := by
    unfold endsContinued
    split
    · rename_i empty
      rw [empty]
      rfl
    · rfl
  rw [key, continued, gap, takeLine_blanks blank]
  have behind (continued : Bool) : takeLine continued afterGap =
      (e.delimiter.written ++ (e.value.lead ++ joined e.value.text), rest) := by
    rw [value]
    cases delimiter : e.delimiter with
    | none =>
      rw [noLead delimiter, Delimiter.written, List.nil_append, List.nil_append,
        takeLine_of_solid solid, text]
      rfl
    | equals =>
      rw [Delimiter.written, List.singleton_append, takeLine_cons _ (by decide)]
      simp [takeLine_blanks valueBlank, text, joined, isLineEnd, isBlank]
    | colon =>
      rw [Delimiter.written, List.singleton_append, takeLine_cons _ (by decide)]
      simp [takeLine_blanks valueBlank, text, joined, isLineEnd, isBlank]
  rw [behind]
  rfl

/-- A value without blanks in front of it stands at the end of its line. -/
theorem EntryCuts.text_of_bare (h : EntryCuts t afterKey afterGap afterDelimiter valueText e rest)
    (none : e.delimiter = .none) (noGap : e.gap = []) : e.value.text = [] := by
  obtain ⟨gap, -, notBlank⟩ := h.gap_append
  obtain ⟨value, -, noLead, -⟩ := h.value_append
  have stops := head_afterKey t
  rw [h.key] at stops
  rw [noGap, List.nil_append] at gap
  rw [none, noLead none] at value
  have same : valueText = afterKey := by rw [gap, value]; rfl
  have scanned : (scanValue false afterGap).1 = e.value.text := by rw [← gap, ← same, h.value]
  rw [gap] at stops
  rw [← scanned]
  cases afterGap with
  | nil => rfl
  | cons c cs =>
    have isEnd : isLineEnd c = true := by
      have delimiter := h.delimiter
      rw [none] at delimiter
      have blank := notBlank c rfl
      rcases stops c rfl with space | rfl | rfl
      · simpa [isSpace, blank] using space
      · cases delimiter
      · cases delimiter
    rw [scanValue_lineEnd isEnd]

/-- What a loader makes of the logical line of an entry. -/
theorem EntryCuts.loadLine_eq
    (h : EntryCuts t afterKey afterGap afterDelimiter valueText e rest)
    (solid : ∀ c ∈ t.head?, isBlank c = false) {behind : Text}
    (line : e.logicalLine = joined e.key ++ behind) :
    loadLine e.logicalLine =
      (resolved (joined e.key) ++ resolved (cutKey behind).1,
        resolved (dropDelimiter (cutKey behind).2)) := by
  have starts : e.logicalLine.dropWhile isBlank = e.logicalLine := by
    have head := head_takeLine false (.inr solid)
    rw [h.takeLine_eq] at head
    exact dropWhile_of_solid head
  have cut : cutKey (joined e.key ++ behind) =
      (joined e.key ++ (cutKey behind).1, (cutKey behind).2) := by
    have cut := cutKey_scanKey false t behind
    rwa [h.key] at cut
  rw [loadLine, starts, line, cut]
  exact congrArg (·, _) (resolved_takeLine_append false e.key _)

theorem EntryCuts.text_solid
    (h : EntryCuts t afterKey afterGap afterDelimiter valueText e rest) :
    ∀ c ∈ (joined e.value.text).head?, isBlank c = false := by
  have head := head_takeLine false (.inr h.value_append.2.2.2)
  have text := (takeLine_scanValue false valueText).1
  rw [h.value] at text
  rwa [text] at head

/-- A loader finds the key and the value of an entry with a delimiter. -/
theorem EntryCuts.loadLine_of_delimited
    (h : EntryCuts t afterKey afterGap afterDelimiter valueText e rest)
    (solid : ∀ c ∈ t.head?, isBlank c = false) (delimited : e.delimiter ≠ .none) :
    loadLine e.logicalLine = (resolved (joined e.key), resolved (joined e.value.text)) := by
  obtain ⟨-, blank, -⟩ := h.gap_append
  obtain ⟨-, valueBlank, -, -⟩ := h.value_append
  have gapBlank : ∀ c ∈ (if Text.hasLineEnd e.key then [] else e.gap), isBlank c = true := by
    split
    · simp
    · exact blank
  obtain ⟨d, written, delimits⟩ : ∃ d, e.delimiter.written = [d] ∧ (d = '=' ∨ d = ':') := by
    cases delimiter : e.delimiter with
    | none => exact (delimited delimiter).elim
    | equals => exact ⟨'=', rfl, .inl rfl⟩
    | colon => exact ⟨':', rfl, .inr rfl⟩
  have stops : ∀ c ∈ (d :: (e.value.lead ++ joined e.value.text)).head?,
      isBlank c = true ∨ c = '=' ∨ c = ':' := by
    rintro c ⟨⟩
    exact .inr delimits
  have line := Entry.logicalLine.eq_1 e
  rw [written, List.singleton_append] at line
  rw [h.loadLine_eq solid line, cutKey_blanks gapBlank (.inr stops), dropDelimiter_blanks gapBlank,
    dropDelimiter_delimiter delimits, List.dropWhile_append_of_pos valueBlank,
    dropWhile_of_solid h.text_solid]
  simp [resolved]

/-- A loader finds the same key and value exactly in the entries that are settled. -/
theorem EntryCuts.loadLine_eq_iff
    (h : EntryCuts t afterKey afterGap afterDelimiter valueText e rest)
    (solid : ∀ c ∈ t.head?, isBlank c = false) :
    loadLine e.logicalLine = (resolved (joined e.key), resolved (joined e.value.text)) ↔
      e.Settled := by
  by_cases delimited : e.delimiter = .none
  · obtain ⟨-, blank, -⟩ := h.gap_append
    have noLead := h.value_append.2.2.1 delimited
    have line := Entry.logicalLine.eq_1 e
    rw [delimited, noLead, Delimiter.written, List.nil_append, List.nil_append] at line
    rw [h.loadLine_eq solid line]
    cases hasLineEnd : Text.hasLineEnd e.key with
    | false =>
      have stops : e.gap ≠ [] ∨
          ∀ c ∈ (joined e.value.text).head?, isBlank c = true ∨ c = '=' ∨ c = ':' := by
        refine or_iff_not_imp_left.mpr fun noGap => ?_
        rw [h.text_of_bare delimited (not_not.mp noGap)]
        simp [joined, takeLine]
      rw [if_neg Bool.false_ne_true, cutKey_blanks blank stops, dropDelimiter_blanks blank]
      have plain := resolved_dropDelimiter_eq_iff h.text_solid
      simp only [resolved, List.append_nil, Prod.mk.injEq, true_and, plain, Entry.Settled,
        delimited, hasLineEnd, forall_const]
      refine ⟨fun all _ => all, fun all => ?_⟩
      by_cases empty : joined e.value.text = []
      · simp [empty]
      · exact all empty
    | true =>
      -- The blanks that would end the key are gone with the continuation.
      rw [if_pos rfl, List.nil_append]
      by_cases empty : joined e.value.text = []
      · rw [empty]
        exact iff_of_true (by simp [cutKey, resolved, dropDelimiter]) fun _ nonempty =>
          (nonempty empty).elim
      · refine iff_of_false (fun same => ?_) fun settled => ?_
        · obtain ⟨sameKey, sameText⟩ := Prod.mk.inj same
          exact resolved_cutKey_ne h.text_solid empty ⟨List.append_right_eq_self.mp sameKey, sameText⟩
        · exact absurd (settled delimited empty).1 (by simp [hasLineEnd])
  · exact iff_of_true (h.loadLine_of_delimited solid delimited) fun none => (delimited none).elim

/-- The value of an entry is text behind its key, and more text stands behind it. -/
theorem EntryCuts.suffixes
    (h : EntryCuts t afterKey afterGap afterDelimiter valueText e rest) :
    e.key <+: t ∧ e.value.text <+: valueText ∧ valueText <:+ t ∧ rest <:+ t := by
  have key := scanKey_append t
  have value := scanValue_append false valueText
  rw [h.key] at key
  rw [h.value] at value
  have behind : valueText <:+ t :=
    ⟨e.key ++ (e.gap ++ (e.delimiter.written ++ e.value.lead)), by
      rw [← key, h.gap_append.1, h.value_append.1]
      simp⟩
  exact ⟨⟨afterKey, key⟩, ⟨rest, value⟩, behind, List.IsSuffix.trans ⟨e.value.text, value⟩ behind⟩

/-- Without code points by number, keys and values stand for what is left of them without their
continuations. -/
theorem EntryCuts.meaning_eq
    (h : EntryCuts t afterKey afterGap afterDelimiter valueText e rest)
    (noCodePoint : ¬ ['\\', 'u'] <:+: t) :
    e.meaning = (resolved (joined e.key), resolved (joined e.value.text)) := by
  obtain ⟨keyInside, textInside, valueInside, -⟩ := h.suffixes
  have key := (takeLine_scanKey false t).2
  have text := (takeLine_scanValue false valueText).2
  rw [h.key] at key
  rw [h.value] at text
  have keyText : e.keyText = resolved (joined e.key) :=
    unescapeFrom_eq key fun inside => noCodePoint (inside.trans keyInside.isInfix)
  have meaning : e.value.meaning = resolved (joined e.value.text) :=
    unescapeFrom_eq text fun inside =>
      noCodePoint ((inside.trans textInside.isInfix).trans valueInside.isInfix)
  rw [Entry.meaning, keyText, meaning]

end Cuts

theorem load_space {lead : Text} (space : ∀ c ∈ lead, isSpace c = true) (t : Text) :
    load (lead ++ t) = load t := by
  induction lead with
  | nil => rfl
  | cons c lead ih =>
    obtain ⟨first, others⟩ := List.forall_mem_cons.mp space
    rw [List.cons_append, ← ih others]
    rcases (Bool.or_eq_true _ _).mp first with blank | isEnd
    · exact load_blank blank _
    · exact load_lineEnd isEnd _

/-- What a loader reads where an entry begins: the entry, if that is settled, and the rest. -/
theorem load_entry (lead : Text) {c : Char} (solid : isSpace c = false)
    (opensNone : ¬ (c = '#' ∨ c = '!')) {cs : Text} (noCodePoint : ¬ ['\\', 'u'] <:+: c :: cs) :
    ∃ pair, load (c :: cs) = pair :: load (readEntry lead (c :: cs)).2 ∧
      (pair = (readEntry lead (c :: cs)).1.meaning ↔ (readEntry lead (c :: cs)).1.Settled) ∧
      (readEntry lead (c :: cs)).2 <:+ c :: cs := by
  obtain ⟨-, afterKey, afterGap, afterDelimiter, valueText, cuts⟩ := readEntry_cuts lead (c :: cs)
  have notBlank : ∀ d ∈ (c :: cs).head?, isBlank d = false := by
    rintro d ⟨⟩
    exact (Bool.or_eq_false_iff.mp solid).1
  refine ⟨loadLine (readEntry lead (c :: cs)).1.logicalLine, ?_, ?_, cuts.suffixes.2.2.2⟩
  · rw [load_solid solid opensNone, cuts.takeLine_eq]
  · rw [cuts.meaning_eq noCodePoint]
    exact cuts.loadLine_eq_iff notBlank

/-- The entries among pieces of content. -/
def entriesOf (cs : List Content) : List Entry := File.entries ⟨.unnumbered, cs, []⟩

/-- Entry after entry, a loader reads what stands in the content that was read from the text. -/
theorem load_readContent {steps : Nat} {t : Text} (enough : t.length ≤ steps)
    (noCodePoint : ¬ ['\\', 'u'] <:+: t) (n : Nat) :
    List.Forall₂ (fun e pair => pair = Entry.meaning e ↔ e.Settled)
      (entriesOf (numberedContent n (readContent steps t).1)) (load t) := by
  induction steps generalizing t n with
  | zero =>
    obtain rfl := List.length_eq_zero_iff.mp (Nat.le_zero.mp enough)
    exact .nil
  | succ steps ih =>
    obtain ⟨lead, cut, rfl, space⟩ | ⟨lead, c, cs, cut, rfl, solid, space⟩ := span_isSpace t
    · have nothing := load_space space []
      rw [List.append_nil] at nothing
      rw [readContent_of_blank steps cut, nothing]
      exact .nil
    · have shorter := readPiece_length_lt lead solid cs
      have left : (readPiece lead c cs).2.length ≤ steps := by
        simp only [List.length_append, List.length_cons] at enough shorter
        omega
      have noneInside := notInfix_of_suffix noCodePoint ⟨lead, rfl⟩
      rw [readContent_of_solid steps cut, load_space space]
      unfold readPiece at left ⊢
      split
      · rename_i opens
        rw [if_pos opens] at left
        rw [load_comment opens]
        have suffix : (readComment lead c cs).2 <:+ c :: cs :=
          (List.dropWhile_suffix _).trans (List.suffix_cons c cs)
        exact ih left (notInfix_of_suffix noneInside suffix) (n + 1)
      · rename_i opensNone
        rw [if_neg opensNone] at left
        obtain ⟨pair, loaded, same, suffix⟩ := load_entry lead solid opensNone noneInside
        rw [loaded]
        exact .cons same (ih left (notInfix_of_suffix noneInside suffix) (n + 2))

/-- The value that counts for a key: that of the last pair. -/
def loaded? (key : Text) (pairs : List (Text × Text)) : Option Text :=
  (pairs.filter (·.1 = key)).getLast?.map Prod.snd

theorem loaded?_meaning (f : File) (key : Text) :
    loaded? key (f.entries.map Entry.meaning) = (f.find? key).map (·.value.meaning) := by
  unfold loaded? File.find?
  rw [List.filter_map, List.getLast?_map, Option.map_map]
  rfl

theorem eq_map_iff_of_forall₂ {f : Entry → Text × Text} {settled : Entry → Prop}
    {entries : List Entry} {pairs : List (Text × Text)}
    (h : List.Forall₂ (fun e pair => pair = f e ↔ settled e) entries pairs) :
    pairs = entries.map f ↔ ∀ e ∈ entries, settled e := by
  induction h with
  | nil => simp
  | cons same _ ih => simp [same, ih]

/-- A loader finds as many keys and values as there are entries, in the same order. It finds the
key and the value of an entry exactly when that is settled, hence all of them and the same value
for each key when every entry is. -/
theorem load_parse {t : Text} (noCodePoint : ¬ ['\\', 'u'] <:+: t) :
    List.Forall₂ (fun e pair => pair = e.meaning ↔ e.Settled) (parse t).entries (load t) ∧
      (load t = (parse t).entries.map Entry.meaning ↔ ∀ e ∈ (parse t).entries, e.Settled) ∧
      ((∀ e ∈ (parse t).entries, e.Settled) →
        ∀ key, ((parse t).find? key).map (·.value.meaning) = loaded? key (load t)) := by
  have pairs : List.Forall₂ (fun e pair => pair = e.meaning ↔ e.Settled)
      (parse t).entries (load t) := load_readContent (Nat.le_refl _) noCodePoint 1
  have all := eq_map_iff_of_forall₂ pairs
  exact ⟨pairs, all, fun settled key => by rw [all.mpr settled, loaded?_meaning]⟩

/-- A value continued on the next line, and a key that is. -/
def splitText : Text := "! c\nk = v\\\n  w\na\\\n  b\n".toList

/-- The blanks behind the second continuation end the key here, but not for a loader. -/
theorem load_parse_splitText :
    load splitText = [("k".toList, "vw".toList), ("ab".toList, [])] ∧
      (parse splitText).entries.map Entry.meaning =
        [("k".toList, "vw".toList), ("a".toList, "b".toList)] ∧
      ¬ ∀ e ∈ (parse splitText).entries, e.Settled := by
  have loads : load splitText = [("k".toList, "vw".toList), ("ab".toList, [])] := by decide +kernel
  have means : (parse splitText).entries.map Entry.meaning =
      [("k".toList, "vw".toList), ("a".toList, "b".toList)] := by decide +kernel
  obtain ⟨-, all, -⟩ := load_parse (t := splitText) (by decide +kernel)
  refine ⟨loads, means, fun settled => ?_⟩
  have same := all.mpr settled
  rw [loads, means] at same
  revert same
  decide

end ConfigTree.Properties
