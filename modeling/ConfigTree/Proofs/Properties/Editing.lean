import ConfigTree.Proofs.Properties.Loading

/-!
# Changed values of properties files read back

Printing adds nothing between a key and its value, so a changed value reads back when the entry has
blanks or a delimiter in front of it. Every cut of a scanner depends on what it takes and on the
first character that it leaves only. That is why all content in front of the change and behind it
is read as before.
-/

namespace ConfigTree.Properties

/-- The file with `text` as the value, as written, of the entry at `k` in its content. -/
def File.setTextAt (f : File) (k : Nat) (text : Text) : File :=
  match f.content[k]? with
  | some (.entry e) =>
    let entry := e.withValue f.nextRevision (e.value.withText f.nextRevision text)
    f.withContent f.nextRevision (f.content.set k (.entry entry))
  | _ => f

/-- The entry with `text` as its value as written. -/
def Entry.holding (e : Entry) (text : Text) : Entry := { e with value := { e.value with text } }

/-- Whether an entry has nothing between its key and its value. -/
def Entry.IsBare (e : Entry) : Prop := e.delimiter = .none ∧ e.gap = []

instance (e : Entry) : Decidable e.IsBare := inferInstanceAs (Decidable (_ ∧ _))

/-- What stands between the blanks in front of an entry and its value. -/
def Entry.frame (e : Entry) : Text :=
  e.key ++ (e.gap ++ (e.delimiter.written ++ e.value.lead))

theorem head_append_congr {front s t : Text} (same : s.head? = t.head?) :
    (front ++ s).head? = (front ++ t).head? := by
  cases front with
  | nil => exact same
  | cons => rfl

/-- A carriage return stands in front of no line feed. -/
theorem notBoth_append {c : Char} {taken more : Text} (next : taken.head? ≠ some '\n')
    (behind : c = '\r' → taken = [] → more.head? ≠ some '\n') :
    ∀ ds, c = '\r' → taken ++ more = '\n' :: ds → False := by
  intro ds carriageReturn lineFeed
  cases taken with
  | nil =>
    obtain rfl : more = '\n' :: ds := lineFeed
    exact behind carriageReturn rfl rfl
  | cons d taken =>
    rw [(List.cons.inj lineFeed).1] at next
    exact next rfl

theorem notBoth_replace {c : Char} {cs taken rest more : Text}
    (notBoth : ∀ ds, c = '\r' → cs = '\n' :: ds → False) (whole : taken ++ rest = cs)
    (next : taken.head? ≠ some '\n') (same : more.head? = rest.head?) :
    ∀ ds, c = '\r' → taken ++ more = '\n' :: ds → False := by
  refine notBoth_append next ?_
  rintro carriageReturn rfl lineFeed
  obtain rfl : rest = cs := whole
  rw [same] at lineFeed
  obtain ⟨ds, begins⟩ := List.head?_eq_some_iff.mp lineFeed
  exact notBoth ds carriageReturn begins

/-- A key goes on in front of any text that begins as the text behind it. -/
theorem scanKey_replace (t : Text) {more : Text} (same : more.head? = (scanKey t).2.head?) :
    scanKey ((scanKey t).1 ++ more) = ((scanKey t).1, more) := by
  induction t using scanKey_induction with
  | nil | last =>
    rw [List.head?_eq_none_iff.mp same]
    rfl
  | lineBreak cs ih =>
    rw [scanKey_lineBreak] at same ⊢
    simp only [List.cons_append]
    rw [scanKey_lineBreak, ih same]
  | escape c cs notBoth ih =>
    rw [scanKey_escape notBoth] at same ⊢
    have notBoth' := notBoth_replace notBoth (scanKey_append cs) (head_scanKey cs) same
    rw [List.cons_append, List.cons_append, scanKey_escape notBoth', ih same]
  | stop c cs stops =>
    rw [scanKey_stop stops] at same ⊢
    obtain ⟨ds, rfl⟩ := List.head?_eq_some_iff.mp same
    exact scanKey_stop stops ds
  | solid c cs notSlash goesOn ih =>
    rw [scanKey_cons notSlash goesOn] at same ⊢
    rw [List.cons_append, scanKey_cons notSlash goesOn, ih same]

theorem length_scanKey_pos {c : Char} (goesOn : ¬ (isSpace c = true ∨ c = '=' ∨ c = ':'))
    (t : Text) : 0 < (scanKey (c :: t)).1.length := by
  cases taken : (scanKey (c :: t)).1 with
  | nil =>
    have solid : isSpace c = false := Bool.eq_false_iff.mpr fun space => goesOn (.inl space)
    obtain ⟨delimits, -⟩ := scanKey_eq_nil solid (Prod.ext taken rfl)
    exact absurd (.inr delimits) goesOn
  | cons => exact Nat.succ_pos _

/-- A key goes on in front of what does not end it. -/
theorem length_lt_scanKey {c : Char} (goesOn : ¬ (isSpace c = true ∨ c = '=' ∨ c = ':'))
    (t more : Text) : (scanKey t).1.length < (scanKey ((scanKey t).1 ++ c :: more)).1.length := by
  have notLineFeed : c ≠ '\n' := by
    rintro rfl
    exact goesOn (.inl rfl)
  induction t using scanKey_induction with
  | nil => exact length_scanKey_pos goesOn more
  | last =>
    have notBoth : ∀ ds, c = '\r' → more = '\n' :: ds → False := by
      rintro _ rfl -
      exact goesOn (.inl rfl)
    rw [scanKey_slash, List.singleton_append, scanKey_escape notBoth]
    simp
  | lineBreak cs ih =>
    rw [scanKey_lineBreak]
    simp only [List.cons_append]
    rw [scanKey_lineBreak]
    simpa using ih
  | escape d cs notBoth ih =>
    have notBoth' : ∀ ds, d = '\r' → (scanKey cs).1 ++ c :: more = '\n' :: ds → False :=
      notBoth_append (head_scanKey cs) fun _ _ head => notLineFeed (Option.some.inj head)
    rw [scanKey_escape notBoth, List.cons_append, List.cons_append, scanKey_escape notBoth']
    simpa using ih
  | stop d cs stops =>
    rw [scanKey_stop stops]
    exact length_scanKey_pos goesOn more
  | solid d cs notSlash keyGoesOn ih =>
    rw [scanKey_cons notSlash keyGoesOn, List.cons_append, scanKey_cons notSlash keyGoesOn]
    simpa using ih

theorem span_of_stops {p : Char → Bool} {front more : Text} (all : ∀ c ∈ front, p c = true)
    (stops : ∀ c ∈ more.head?, p c = false) : Text.span p (front ++ more) = (front, more) := by
  unfold Text.span
  rw [List.takeWhile_append_of_pos all, List.dropWhile_append_of_pos all]
  cases more with
  | nil => simp
  | cons c cs => simp [stops c rfl]

/-- A value goes on in front of any text that begins as the text behind it. -/
theorem scanValue_replace (escaped : Bool) (t : Text) {more : Text}
    (same : more.head? = (scanValue escaped t).2.head?) :
    scanValue escaped ((scanValue escaped t).1 ++ more) = ((scanValue escaped t).1, more) := by
  fun_induction scanValue escaped t with
  | case1 =>
    rw [List.head?_eq_none_iff.mp same]
    rfl
  | case2 cs value rest found ih =>
    rw [found] at ih
    simp only [List.cons_append]
    rw [scanValue, if_pos rfl, ih same]
  | case3 escaped cs notEscaped =>
    obtain ⟨ds, rfl⟩ := List.head?_eq_some_iff.mp same
    rw [List.nil_append, Bool.eq_false_iff.mpr notEscaped, scanValue_lineEnd rfl]
  | case4 escaped c cs _ stops =>
    obtain ⟨ds, rfl⟩ := List.head?_eq_some_iff.mp same
    rw [List.nil_append, Bool.eq_false_iff.mpr stops.2, scanValue_lineEnd stops.1]
  | case5 escaped c cs notBoth goesOn value rest found ih =>
    have whole := scanValue_append (decide (c = '\\' ∧ ¬escaped = true)) cs
    rw [found] at ih whole
    have notBoth' : ∀ ds, c = '\r' → value ++ more = '\n' :: ds → False := by
      rintro ds rfl
      have next := head_scanValue cs
      rw [show scanValue false cs = (value, rest) from found] at next
      exact notBoth_replace notBoth whole next same ds rfl
    rw [List.cons_append, scanValue, if_neg goesOn, ih same]
    exact notBoth'

theorem scanDelimiter_written {d : Delimiter} {more : Text}
    (plain : d = .none → ∀ c ∈ more.head?, c ≠ '=' ∧ c ≠ ':') :
    scanDelimiter (d.written ++ more) = (d, more) := by
  cases d with
  | equals => rfl
  | colon => rfl
  | none =>
    cases more with
    | nil => rfl
    | cons c cs =>
      have := plain rfl c rfl
      simp only [Delimiter.written, List.nil_append]
      rw [scanDelimiter]
      · exact fun _ same => this.1 (List.cons.inj same).1
      · exact fun _ same => this.2 (List.cons.inj same).1

section Cuts

variable {t afterKey afterGap afterDelimiter valueText rest : Text} {e : Entry}

theorem EntryCuts.frame_append
    (h : EntryCuts t afterKey afterGap afterDelimiter valueText e rest) :
    e.frame ++ valueText = t := by
  have key := scanKey_append t
  rw [h.key] at key
  rw [← key, h.gap_append.1, h.value_append.1]
  simp [Entry.frame]

/-- Behind a key stands what stood there, unless the value comes right behind it. -/
theorem EntryCuts.head_afterKey
    (h : EntryCuts t afterKey afterGap afterDelimiter valueText e rest) {valueText' : Text}
    (starts : valueText'.head? = valueText.head? ∨ ¬ e.IsBare) :
    (e.gap ++ (e.delimiter.written ++ (e.value.lead ++ valueText'))).head? = afterKey.head? := by
  rw [h.gap_append.1, h.value_append.1]
  rcases starts with same | notBare
  · exact head_append_congr (head_append_congr (head_append_congr same))
  · cases noGap : e.gap with
    | cons => rfl
    | nil =>
      cases delimiter : e.delimiter with
      | none => exact (notBare ⟨delimiter, noGap⟩).elim
      | equals => rfl
      | colon => rfl

theorem EntryCuts.head_afterGap
    (h : EntryCuts t afterKey afterGap afterDelimiter valueText e rest) {valueText' : Text}
    (solid : ∀ c ∈ valueText'.head?, isBlank c = false) :
    ∀ c ∈ (e.delimiter.written ++ (e.value.lead ++ valueText')).head?, isBlank c = false := by
  cases delimiter : e.delimiter with
  | none =>
    rw [h.value_append.2.2.1 delimiter]
    exact solid
  | equals =>
    rintro c ⟨⟩
    rfl
  | colon =>
    rintro c ⟨⟩
    rfl

/-- An entry with another value is read as before, unless its key would go on in the value. -/
theorem EntryCuts.readEntry_holding
    (h : EntryCuts t afterKey afterGap afterDelimiter valueText e rest)
    (unnumbered : e.id = .unnumbered ∧ e.value.id = .unnumbered) {valueText' text rest' : Text}
    (starts : valueText'.head? = valueText.head? ∨ ¬ e.IsBare)
    (solid : ∀ c ∈ valueText'.head?, isBlank c = false)
    (plain : e.delimiter = .none → ∀ c ∈ valueText'.head?, c ≠ '=' ∧ c ≠ ':')
    (value : scanValue false valueText' = (text, rest')) :
    readEntry e.lead (e.frame ++ valueText') = (e.holding text, rest') := by
  obtain ⟨-, leadBlank, noLead, -⟩ := h.value_append
  have written : e.frame ++ valueText' =
      e.key ++ (e.gap ++ (e.delimiter.written ++ (e.value.lead ++ valueText'))) := by
    simp [Entry.frame]
  have sameStart : (e.gap ++ (e.delimiter.written ++ (e.value.lead ++ valueText'))).head? =
      (scanKey t).2.head? := by
    rw [h.head_afterKey starts, h.key]
  have key := scanKey_replace t sameStart
  rw [h.key, ← written] at key
  have gap := span_of_stops h.gap_append.2.1 (h.head_afterGap solid)
  have delimiter : scanDelimiter (e.delimiter.written ++ (e.value.lead ++ valueText')) =
      (e.delimiter, e.value.lead ++ valueText') := by
    refine scanDelimiter_written fun none => ?_
    rw [noLead none]
    exact plain none
  have lead : (if e.delimiter = .none then ([], e.value.lead ++ valueText')
      else Text.span isBlank (e.value.lead ++ valueText')) = (e.value.lead, valueText') := by
    split
    · rename_i none
      rw [noLead none]
      rfl
    · exact span_of_stops leadBlank solid
  obtain ⟨id, valueId⟩ := unnumbered
  simp only [readEntry, key, gap, delimiter, lead, value, Entry.holding, id, valueId, h.unmarked]

theorem EntryCuts.value_solid
    (h : EntryCuts t afterKey afterGap afterDelimiter valueText e rest) :
    (∀ c ∈ valueText.head?, isBlank c = false) ∧
      (e.delimiter = .none → ∀ c ∈ valueText.head?, c ≠ '=' ∧ c ≠ ':') := by
  obtain ⟨behindGap, -, noLead, solid⟩ := h.value_append
  refine ⟨solid, fun none c head => ?_⟩
  have delimiter := h.delimiter
  rw [behindGap, none, noLead none] at delimiter
  constructor
  · rintro rfl
    obtain ⟨cs, rfl⟩ := List.head?_eq_some_iff.mp head
    cases (Prod.mk.inj delimiter).1
  · rintro rfl
    obtain ⟨cs, rfl⟩ := List.head?_eq_some_iff.mp head
    cases (Prod.mk.inj delimiter).1

/-- An entry is read as before in front of any text that begins as the text behind it. -/
theorem EntryCuts.readEntry_replace
    (h : EntryCuts t afterKey afterGap afterDelimiter valueText e rest)
    (unnumbered : e.id = .unnumbered ∧ e.value.id = .unnumbered) {more : Text}
    (same : more.head? = rest.head?) :
    (e.frame ++ (e.value.text ++ more)).head? = t.head? ∧
      readEntry e.lead (e.frame ++ (e.value.text ++ more)) = (e, more) := by
  have text := scanValue_append false valueText
  rw [h.value] at text
  have sameValue : (e.value.text ++ more).head? = valueText.head? := by
    rw [← text]
    exact head_append_congr same
  have behind : more.head? = (scanValue false valueText).2.head? := by rw [h.value, same]
  have value := scanValue_replace false valueText behind
  rw [h.value] at value
  obtain ⟨solid, plain⟩ := h.value_solid
  rw [← sameValue] at solid plain
  refine ⟨?_, h.readEntry_holding unnumbered (.inl sameValue) solid plain value⟩
  rw [head_append_congr sameValue, h.frame_append]

/-- Behind a bare entry a text that does not end the key makes the key longer. -/
theorem EntryCuts.length_key_lt
    (h : EntryCuts t afterKey afterGap afterDelimiter valueText e rest) (bare : e.IsBare) {c : Char}
    (goesOn : ¬ (isSpace c = true ∨ c = '=' ∨ c = ':')) (lead more : Text) :
    e.key.length < (readEntry lead (e.frame ++ c :: more)).1.key.length := by
  have frame : e.frame = e.key := by
    simp [Entry.frame, bare.1, bare.2, h.value_append.2.2.1 bare.1, Delimiter.written]
  have longer := length_lt_scanKey goesOn t more
  rw [h.key, ← frame] at longer
  rwa [frame] at longer ⊢

/-- An entry has a key or a delimiter. -/
theorem EntryCuts.frame_ne_nil {c : Char} {cs : Text}
    (h : EntryCuts (c :: cs) afterKey afterGap afterDelimiter valueText e rest)
    (solid : isSpace c = false) : e.frame ≠ [] := by
  intro nothing
  have value := h.frame_append
  rw [nothing, List.nil_append] at value
  simp only [Entry.frame, List.append_eq_nil_iff] at nothing
  obtain ⟨noKey, -, noDelimiter, -⟩ := nothing
  have key := h.key
  rw [noKey] at key
  have plain := h.value_solid.2 (written_eq_nil noDelimiter) c (by rw [value]; rfl)
  rcases (scanKey_eq_nil solid key).1 with rfl | rfl
  · exact plain.1 rfl
  · exact plain.2 rfl

end Cuts

theorem Entry.print_pieces {e : Entry} (unmarked : e.value.mark = none) :
    Piece.print (Content.entry e).pieces = e.lead ++ (e.frame ++ e.value.text) := by
  simp [Content.pieces, Value.pieces, unmarked, Entry.frame]

theorem atLineEnd_readComment (lead : Text) (sign : Char) (t : Text) :
    AtLineEnd (readComment lead sign t).2 := by
  intro c head
  simpa using head_dropWhile _ t c head

/-- A comment is read as before in front of any text that begins as the text behind it. -/
theorem readComment_replace (lead : Text) (sign : Char) (t : Text) {more : Text}
    (same : more.head? = (readComment lead sign t).2.head?) :
    readComment lead sign ((readComment lead sign t).1.message ++ more) =
      ((readComment lead sign t).1, more) := by
  have ends : AtLineEnd more := by
    intro d head
    rw [same] at head
    exact atLineEnd_readComment lead sign t d head
  have cut : Text.span (fun d => !isLineEnd d) ((readComment lead sign t).1.message ++ more) =
      ((readComment lead sign t).1.message, more) :=
    span_of_stops (List.all_eq_true.mp List.all_takeWhile) fun d head => by simp [ends d head]
  rw [readComment, cut]
  rfl

theorem readPiece_comment (lead : Text) {c : Char} (opens : c = '#' ∨ c = '!') (cs : Text) :
    readPiece lead c cs = (.comment (readComment lead c cs).1, (readComment lead c cs).2) :=
  if_pos opens

theorem readPiece_entry (lead : Text) {c : Char} (opens : ¬ (c = '#' ∨ c = '!')) (cs : Text) :
    readPiece lead c cs = (.entry (readEntry lead (c :: cs)).1, (readEntry lead (c :: cs)).2) :=
  if_neg opens

/-- A piece of content is read as before in front of any text that begins as the text behind it. -/
theorem readPiece_replace (lead : Text) (c : Char) (cs : Text) {more : Text}
    (same : more.head? = (readPiece lead c cs).2.head?) :
    ∃ cs', Piece.print (readPiece lead c cs).1.pieces ++ more = lead ++ c :: cs' ∧
      readPiece lead c cs' = ((readPiece lead c cs).1, more) := by
  by_cases opens : c = '#' ∨ c = '!'
  · rw [readPiece_comment lead opens] at same ⊢
    refine ⟨(readComment lead c cs).1.message ++ more, by simp [readComment, Content.pieces], ?_⟩
    rw [readPiece_comment lead opens, readComment_replace lead c cs same]
  · rw [readPiece_entry lead opens] at same ⊢
    obtain ⟨sameLead, afterKey, afterGap, afterDelimiter, valueText, cuts⟩ :=
      readEntry_cuts lead (c :: cs)
    obtain ⟨starts, again⟩ := cuts.readEntry_replace ⟨rfl, rfl⟩ same
    rw [sameLead] at again
    obtain ⟨cs', begins⟩ := List.head?_eq_some_iff.mp starts
    refine ⟨cs', ?_, ?_⟩
    · rw [Entry.print_pieces cuts.unmarked, ← begins, sameLead]
      simp
    · rw [readPiece_entry lead opens, ← begins, again]

/-! ## Reading from any piece of content on -/

/-- All content of a text, and what follows the last of it. -/
def readAll (t : Text) : List Content × Text := readContent t.length t

theorem readAll_of_solid {lead : Text} (space : ∀ c ∈ lead, isSpace c = true) {c : Char}
    (solid : isSpace c = false) (cs : Text) :
    readAll (lead ++ c :: cs) =
      ((readPiece lead c cs).1 :: (readAll (readPiece lead c cs).2).1,
        (readAll (readPiece lead c cs).2).2) := by
  have cut : Text.span isSpace (lead ++ c :: cs) = (lead, c :: cs) :=
    span_of_stops space (by rintro d ⟨⟩; exact solid)
  have shorter := readPiece_length_lt lead solid cs
  obtain ⟨n, size⟩ : ∃ n, (lead ++ c :: cs).length = n + 1 := ⟨lead.length + cs.length, by simp; omega⟩
  have enough : (readPiece lead c cs).2.length ≤ n := by
    simp only [List.length_append, List.length_cons] at size shorter
    omega
  rw [readAll, size, readContent_of_solid n cut,
    (readContent_of_enough (Nat.le_refl _) enough).1]
  rfl

/-- The first piece of content that was read. -/
theorem readAll_eq_cons {t : Text} {x : Content} {xs : List Content} {tail : Text}
    (h : readAll t = (x :: xs, tail)) :
    ∃ lead c cs, t = lead ++ c :: cs ∧ (∀ d ∈ lead, isSpace d = true) ∧ isSpace c = false ∧
      x = (readPiece lead c cs).1 ∧ readAll (readPiece lead c cs).2 = (xs, tail) := by
  obtain ⟨lead, cut, rfl, -⟩ | ⟨lead, c, cs, cut, rfl, solid, space⟩ := span_isSpace t
  · cases size : t.length with
    | zero => rw [readAll, size, readContent] at h; cases h
    | succ n => rw [readAll, size, readContent_of_blank n cut] at h; cases h
  · rw [readAll_of_solid space solid] at h
    obtain ⟨same, rfl⟩ := Prod.mk.inj h
    obtain ⟨rfl, rfl⟩ := List.cons.inj same
    exact ⟨lead, c, cs, rfl, space, solid, rfl, rfl⟩

/-- The first piece of content, if it is an entry. -/
theorem readAll_eq_cons_entry {t : Text} {e : Entry} {xs : List Content} {tail : Text}
    (h : readAll t = (.entry e :: xs, tail)) :
    ∃ c cs rest, t = e.lead ++ c :: cs ∧ (∀ d ∈ e.lead, isSpace d = true) ∧ isSpace c = false ∧
      ¬ (c = '#' ∨ c = '!') ∧ readEntry e.lead (c :: cs) = (e, rest) ∧
      readAll rest = (xs, tail) := by
  obtain ⟨lead, c, cs, rfl, space, solid, same, others⟩ := readAll_eq_cons h
  have opens : ¬ (c = '#' ∨ c = '!') := by
    intro opens
    rw [readPiece_comment lead opens] at same
    contradiction
  rw [readPiece_entry lead opens] at same others
  have sameLead : e.lead = lead := congrArg Entry.lead (Content.entry.inj same)
  rw [sameLead]
  exact ⟨c, cs, _, rfl, space, solid, opens, Prod.ext (Content.entry.inj same).symm rfl, others⟩

/-- Reading can begin at any piece of content, and the content in front of it is read as before
whatever stands behind, as long as that begins as before. -/
theorem readAll_append {t : Text} {front back : List Content} {tail : Text}
    (h : readAll t = (front ++ back, tail)) :
    ∃ r, t = contentPrint front ++ r ∧ readAll r = (back, tail) ∧
      ∀ more, more.head? = r.head? →
        readAll (contentPrint front ++ more) = (front ++ (readAll more).1, (readAll more).2) := by
  induction front generalizing t with
  | nil => exact ⟨t, rfl, h, fun _ _ => rfl⟩
  | cons x front ih =>
    obtain ⟨lead, c, cs, rfl, space, solid, rfl, rest⟩ := readAll_eq_cons h
    obtain ⟨r, behind, read, replace⟩ := ih rest
    refine ⟨r, ?_, read, fun more same => ?_⟩
    · rw [contentPrint_cons, List.append_assoc, ← behind, readPiece_append]
    · have sameRest : (contentPrint front ++ more).head? = (readPiece lead c cs).2.head? := by
        rw [behind]
        exact head_append_congr same
      obtain ⟨cs', begins, again⟩ := readPiece_replace lead c cs sameRest
      rw [contentPrint_cons, List.append_assoc, begins, readAll_of_solid space solid, again,
        replace more same]
      rfl

/-- The entry with the number `n`, and its value with the next one. -/
def Entry.numbered (n : Nat) (e : Entry) : Entry :=
  { e with id := ⟨n, 0⟩, value := { e.value with id := ⟨n + 1, 0⟩ } }

/-- Content behind content is numbered on. -/
theorem numberedContent_append (n : Nat) (front : List Content) :
    ∃ m, ∀ back, numberedContent n (front ++ back) =
      numberedContent n front ++ numberedContent m back := by
  induction front generalizing n with
  | nil => exact ⟨n, fun _ => rfl⟩
  | cons c front ih =>
    cases c with
    | comment c =>
      obtain ⟨m, same⟩ := ih (n + 1)
      exact ⟨m, fun back => by simp [numberedContent, same]⟩
    | entry e =>
      obtain ⟨m, same⟩ := ih (n + 2)
      exact ⟨m, fun back => by simp [numberedContent, same]⟩

theorem length_numberedContent (n : Nat) (cs : List Content) :
    (numberedContent n cs).length = cs.length := by
  fun_induction numberedContent n cs <;> simp_all

/-- The entry at a place among numbered content was read, and got a number. -/
theorem exists_of_numberedContent {n k : Nat} {cs : List Content} {e : Entry}
    (at_k : (numberedContent n cs)[k]? = some (.entry e)) :
    ∃ front e₀ back m, cs = front ++ .entry e₀ :: back ∧ front.length = k ∧
      e = e₀.numbered m ∧ ∀ others, numberedContent n (front ++ others) =
        numberedContent n front ++ numberedContent m others := by
  obtain ⟨below, -⟩ := List.getElem?_eq_some_iff.mp at_k
  rw [length_numberedContent] at below
  have whole : cs = cs.take k ++ cs[k] :: cs.drop (k + 1) := by simp
  obtain ⟨m, same⟩ := numberedContent_append n (cs.take k)
  have size : (numberedContent n (cs.take k)).length = k := by
    rw [length_numberedContent, List.length_take, Nat.min_eq_left (Nat.le_of_lt below)]
  rw [whole, same, List.getElem?_append_right (Nat.le_of_eq size), size, Nat.sub_self] at at_k
  cases read : cs[k] with
  | comment c =>
    rw [read] at at_k
    cases at_k
  | entry e₀ =>
    rw [read] at whole at_k
    cases at_k
    exact ⟨_, e₀, _, m, whole, by simp [Nat.le_of_lt below], rfl, same⟩

/-! ## Changed files -/

theorem contentPrint_eq_flatten (cs : List Content) :
    contentPrint cs = (cs.map fun c => Piece.print c.pieces).flatten := by
  induction cs with
  | nil => rfl
  | cons c cs ih => simp [ih]

theorem contentPrint_append (front back : List Content) :
    contentPrint (front ++ back) = contentPrint front ++ contentPrint back := by
  simp [contentPrint_eq_flatten]

theorem contentPrint_set {x y : Content} (same : Piece.print x.pieces = Piece.print y.pieces)
    (cs : List Content) (k : Nat) : contentPrint (cs.set k x) = contentPrint (cs.set k y) := by
  simp only [contentPrint_eq_flatten, List.map_set, same]

theorem File.print_withContent {f : File} {cs : List Content} (revision : Nat)
    (same : cs.map Content.id = f.content.map Content.id → contentPrint cs = contentPrint f.content) :
    (f.withContent revision cs).print = contentPrint cs ++ f.tail := by
  unfold withContent
  split
  · rename_i ids
    rw [print_eq, same ids]
  · rw [print_eq]

/-- A node of an older revision is another one after a change. -/
theorem Entry.withValue_withText {e : Entry} {revision : Nat} (older : e.id.revision ≠ revision)
    (valueOlder : e.value.id.revision ≠ revision) (text : Text) :
    let changed := e.withValue revision (e.value.withText revision text)
    Piece.print (Content.entry changed).pieces = Piece.print (Content.entry (e.holding text)).pieces ∧
      (changed.id = e.id → changed = e) := by
  by_cases same : text = e.value.text
  · subst same
    simp [holding, withValue, Value.withText]
  · have value : (e.value.withText revision text).id ≠ e.value.id := by
      rw [Value.withText, if_neg same]
      exact NodeId.revised_ne valueOlder
    simp only [withValue, if_neg value]
    refine ⟨?_, fun sameId => (NodeId.revised_ne older sameId).elim⟩
    rw [Value.withText, if_neg same]
    cases marked : e.value.mark <;> simp [holding, Content.pieces, Value.pieces, marked]

/-- What is printed of a changed file, when the changed nodes are of an older revision. -/
theorem File.print_setTextAt {f : File} {k : Nat} {e : Entry} (text : Text)
    (at_k : f.content[k]? = some (.entry e)) (older : e.id.revision ≠ f.nextRevision)
    (valueOlder : e.value.id.revision ≠ f.nextRevision) :
    (f.setTextAt k text).print =
      contentPrint (f.content.set k (.entry (e.holding text))) ++ f.tail := by
  obtain ⟨printed, kept⟩ := Entry.withValue_withText older valueOlder text
  have unchanged : f.content.set k (.entry e) = f.content := by
    obtain ⟨below, same⟩ := List.getElem?_eq_some_iff.mp at_k
    rw [← same, List.set_getElem_self]
  rw [setTextAt, at_k, ← contentPrint_set printed]
  refine print_withContent _ fun ids => ?_
  have below := (List.getElem?_eq_some_iff.mp at_k).1
  have sameId := congrArg (·[k]?) ids
  simp only [List.getElem?_map, at_k, List.getElem?_set_self below, Option.map_some,
    Option.some.injEq] at sameId
  rw [kept sameId, unchanged]

theorem scanValue_of_plain {v rest : Text} (plain : ∀ c ∈ v, isLineEnd c = false ∧ c ≠ '\\')
    (ends : AtLineEnd rest) : scanValue false (v ++ rest) = (v, rest) := by
  induction v with
  | nil =>
    cases rest with
    | nil => rfl
    | cons c cs => exact scanValue_lineEnd (ends c rfl) cs
  | cons c v ih =>
    obtain ⟨⟨notEnd, notSlash⟩, others⟩ := List.forall_mem_cons.mp plain
    rw [List.cons_append, scanValue_cons notEnd notSlash, ih others]

theorem atLineEnd_scanValue (escaped : Bool) (t : Text) : AtLineEnd (scanValue escaped t).2 := by
  fun_induction scanValue escaped t with
  | case1 => simp [AtLineEnd]
  | case2 cs value rest found ih => rwa [found] at ih
  | case3 => simp [AtLineEnd, isLineEnd]
  | case4 escaped c cs _ stops => simpa [AtLineEnd] using stops.1
  | case5 escaped c cs _ _ value rest found ih => rwa [found] at ih

/-- Where an entry was read, another value reads back, unless the entry is bare. -/
theorem readAll_holding {t v tail : Text} {e : Entry} {back : List Content}
    (h : readAll t = (.entry e :: back, tail)) (nonempty : v ≠ [])
    (plain : ∀ c ∈ v, isLineEnd c = false ∧ c ≠ '\\')
    (solid : ∀ c ∈ v.head?, isBlank c = false ∧ c ≠ '=' ∧ c ≠ ':') :
    (contentPrint (.entry (e.holding v) :: back) ++ tail).head? = t.head? ∧
      if e.IsBare then
        ∃ longer others tail', readAll (contentPrint (.entry (e.holding v) :: back) ++ tail) =
          (.entry longer :: others, tail') ∧ e.key.length < longer.key.length
      else readAll (contentPrint (.entry (e.holding v) :: back) ++ tail) =
        (.entry (e.holding v) :: back, tail) := by
  obtain ⟨c, cs, behind, rfl, space, notSpace, opens, entryRead, rest⟩ := readAll_eq_cons_entry h
  obtain ⟨-, afterKey, afterGap, afterDelimiter, valueText, cuts⟩ := readEntry_cuts e.lead (c :: cs)
  have unnumbered : (readEntry e.lead (c :: cs)).1.id = .unnumbered ∧
      (readEntry e.lead (c :: cs)).1.value.id = .unnumbered := ⟨rfl, rfl⟩
  rw [entryRead] at cuts unnumbered
  have behindPrint : contentPrint back ++ tail = behind := by
    have whole := readContent_append behind.length behind
    rwa [show readContent behind.length behind = (back, tail) from rest] at whole
  have printed : contentPrint (.entry (e.holding v) :: back) ++ tail =
      e.lead ++ (e.frame ++ (v ++ behind)) := by
    rw [contentPrint_cons, Entry.print_pieces (e := e.holding v) cuts.unmarked,
      List.append_assoc, behindPrint]
    simp [Entry.holding, Entry.frame]
  have starts : (e.frame ++ (v ++ behind)).head? = some c := by
    obtain ⟨d, ds, frame⟩ := List.exists_cons_of_ne_nil (cuts.frame_ne_nil notSpace)
    have whole := cuts.frame_append
    rw [frame] at whole ⊢
    exact congrArg some (List.cons.inj whole).1
  obtain ⟨cs', begins⟩ := List.head?_eq_some_iff.mp starts
  obtain ⟨d, ds, rfl⟩ := List.exists_cons_of_ne_nil nonempty
  refine ⟨by rw [printed, begins]; exact head_append_congr rfl, ?_⟩
  rw [printed, begins, readAll_of_solid space notSpace, readPiece_entry e.lead opens, ← begins]
  split
  · rename_i bare
    have goesOn : ¬ (isSpace d = true ∨ d = '=' ∨ d = ':') := by
      simp [isSpace, solid d rfl, plain d List.mem_cons_self]
    exact ⟨_, _, _, rfl, cuts.length_key_lt bare goesOn e.lead (ds ++ behind)⟩
  · rename_i notBare
    have ends : AtLineEnd behind := by
      have ends := atLineEnd_scanValue false valueText
      rwa [cuts.value] at ends
    have starts : ∀ c ∈ (d :: ds ++ behind).head?, isBlank c = false ∧ c ≠ '=' ∧ c ≠ ':' := solid
    rw [cuts.readEntry_holding unnumbered (.inr notBare) (fun c head => (starts c head).1)
      (fun _ c head => (starts c head).2) (scanValue_of_plain plain ends), rest]

/-- Setting a value and reading the file again gives the file with that value and is otherwise as
it was, exactly when something stands between the key and the value. -/
theorem parse_setTextAt {t v : Text} {k : Nat} {e : Entry}
    (at_k : (parse t).content[k]? = some (.entry e)) (nonempty : v ≠ [])
    (plain : ∀ c ∈ v, isLineEnd c = false ∧ c ≠ '\\')
    (solid : ∀ c ∈ v.head?, isBlank c = false ∧ c ≠ '=' ∧ c ≠ ':') :
    parse ((parse t).setTextAt k v).print =
        { parse t with content := (parse t).content.set k (.entry (e.holding v)) } ↔
      ¬ e.IsBare := by
  have file (t : Text) : parse t = ⟨⟨0, 0⟩, numberedContent 1 (readAll t).1, (readAll t).2⟩ := rfl
  have content := at_k
  rw [file] at content
  obtain ⟨front, e₀, back, m, read, rfl, rfl, numbers⟩ := exists_of_numberedContent content
  have bare : (e₀.numbered m).IsBare ↔ e₀.IsBare := Iff.rfl
  have set : (numberedContent 1 (readAll t).1).set front.length (.entry ((e₀.numbered m).holding v)) =
      numberedContent 1 (front ++ .entry (e₀.holding v) :: back) := by
    rw [read, numbers, numbers, List.set_append_right _ _ (Nat.le_of_eq (length_numberedContent 1 front)),
      length_numberedContent, Nat.sub_self]
    rfl
  have readWhole : readAll t = (front ++ .entry e₀ :: back, (readAll t).2) := Prod.ext read rfl
  obtain ⟨r, whole, rest, replace⟩ := readAll_append readWhole
  obtain ⟨head, again⟩ := readAll_holding rest nonempty plain solid
  have printed : ((parse t).setTextAt front.length v).print =
      contentPrint front ++ (contentPrint (.entry (e₀.holding v) :: back) ++ (readAll t).2) := by
    rw [File.print_setTextAt v at_k (Nat.zero_ne_one) (Nat.zero_ne_one), file]
    simp only [set, contentPrint_numbered, contentPrint_append, List.append_assoc]
  rw [printed, file, file, replace _ head]
  simp only [set]
  rw [bare]
  split at again
  · rename_i isBare
    obtain ⟨longer, others, tail', again, longerKey⟩ := again
    refine iff_of_false (fun same => ?_) (not_not.mpr isBare)
    rw [again] at same
    have contents := (File.mk.inj same).2.1
    rw [numbers, numbers, numberedContent, numberedContent] at contents
    obtain ⟨first, -⟩ := List.cons.inj (List.append_cancel_left contents)
    have sameKey : longer.key = e₀.key := (Entry.mk.inj (Content.entry.inj first)).2.2.1
    rw [sameKey] at longerKey
    exact Nat.lt_irrefl _ longerKey
  · rename_i notBare
    refine iff_of_true ?_ notBare
    rw [again]

/-- A value after blanks, and a key by itself. -/
def blanksText : Text := "a  b\\\n c\r\nd\n".toList

/-- Only the first of them can be given another value. -/
theorem parse_setTextAt_blanksText :
    ∃ first second, (parse blanksText).content = [.entry first, .entry second] ∧
      parse ((parse blanksText).setTextAt 0 "x".toList).print =
        { parse blanksText with content := [.entry (first.holding "x".toList), .entry second] } ∧
      parse ((parse blanksText).setTextAt 1 "x".toList).print ≠
        { parse blanksText with content := [.entry first, .entry (second.holding "x".toList)] } := by
  let first : Entry := ⟨⟨1, 0⟩, [], "a".toList, "  ".toList, .none,
    ⟨⟨2, 0⟩, [], "b\\\n c".toList, none⟩⟩
  let second : Entry := ⟨⟨3, 0⟩, "\r\n".toList, "d".toList, [], .none, ⟨⟨4, 0⟩, [], [], none⟩⟩
  have content : (parse blanksText).content = [.entry first, .entry second] := by decide +kernel
  have plain : ∀ c ∈ "x".toList, isLineEnd c = false ∧ c ≠ '\\' := by simp [isLineEnd]
  have solid : ∀ c ∈ "x".toList.head?, isBlank c = false ∧ c ≠ '=' ∧ c ≠ ':' := by simp [isBlank]
  have setFirst := parse_setTextAt (t := blanksText) (v := "x".toList) (k := 0) (e := first)
    (by rw [content]; rfl) (by decide) plain solid
  have setSecond := parse_setTextAt (t := blanksText) (v := "x".toList) (k := 1) (e := second)
    (by rw [content]; rfl) (by decide) plain solid
  rw [content] at setFirst setSecond
  exact ⟨first, second, content, setFirst.mpr (by decide), fun same => setSecond.mp same (by decide)⟩

end ConfigTree.Properties
