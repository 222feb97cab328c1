import ConfigTree.Proofs.Yaml.ByOffset.Flow

/-!
# Block collections by offsets

The readers of values in block context by offsets agree with those by cursors. The loops over the
entries of a mapping and the items of a sequence look for the next one at the start of each round;
the readers by cursors look at the end of the round before.
-/

namespace ConfigTree.Yaml.ByOffset

variable {text : Text} {pos : Nat} {next : Next} {cur : Cursor}

/-- A value that opens no block collection. The line of its collection has less indentation than
`floor`. -/
theorem readPlainValue_agrees {parent : Int} {floor : Nat} (least : (floor : Int) = parent + 1)
    (h : At text pos cur) (shows : Shows text pos next cur.token) :
    Agrees text (readPlainValue text parent next pos) (Yaml.readPlainValue floor cur.token) := by
  have place := shows.place
  have flow := (flowAgrees text (stepBudget cur.token.here.rest)).value h shows
    (by unfold stepBudget; omega)
  have first {c : Char} (narrow : c.toNat < 128) (found : byteAt text next.offset = some c) :
      ∃ t, cur.token.here.rest = c :: t :=
    List.head?_eq_some_iff.mp ((place.byteAt_eq_some narrow).mp found)
  have block {c : Char} {style : ScalarStyle} {t : Text} (indicator : isIndicatorOf style c)
      (rest : cur.token.here.rest = c :: t) :
      Agrees text
        (readBlockScalar text style parent next.offset pos >>= fun found =>
          .ok (Value.scalar found.1, found.2))
        (.ok (Yaml.readBlockScalar style floor cur.token t) >>= fun found =>
          .ok (Value.scalar found.1, found.2)) := by
    rw [shows.offset]
    refine (readBlockScalar_agrees least indicator h cur.takes_token rest).bind ?_
    intro scalar pos' last _ behind
    exact .ok _ behind
  unfold readPlainValue
  split
  · rename_i opens
    obtain ⟨t, rest⟩ := first (by decide) opens
    rw [Yaml.readPlainValue, rest]
    rw [rest] at flow
    exact flow
  · rename_i opens
    obtain ⟨t, rest⟩ := first (by decide) opens
    rw [Yaml.readPlainValue, rest]
    rw [rest] at flow
    exact flow
  · rename_i opens
    obtain ⟨t, rest⟩ := first (by decide) opens
    rw [Yaml.readPlainValue, rest]
    exact block (.inl ⟨rfl, rfl⟩) rest
  · rename_i opens
    obtain ⟨t, rest⟩ := first (by decide) opens
    rw [Yaml.readPlainValue, rest]
    exact block (.inr ⟨rfl, rfl⟩) rest
  · rename_i notSequence notMapping notLiteral notFolded
    have other {c : Char} {t : Text} (narrow : c.toNat < 128)
        (rest : cur.token.here.rest = c :: t) : byteAt text next.offset = some c :=
      (place.byteAt_eq_some narrow).mpr (rest ▸ rfl)
    unfold Yaml.readPlainValue
    split
    · exact absurd (other (by decide) ‹_›) notSequence
    · exact absurd (other (by decide) ‹_›) notMapping
    · exact absurd (other (by decide) ‹_›) notLiteral
    · exact absurd (other (by decide) ‹_›) notFolded
    · rw [shows.offset]
      refine (readScalar_agrees false h cur.takes_token).bind ?_
      intro scalar pos' last _ behind
      exact .ok _ behind

theorem readInlineValue_agrees {parent : Int} {floor : Nat} (least : (floor : Int) = parent + 1)
    (h : At text pos cur) (shows : Shows text pos next cur.token) :
    Agrees text (readInlineValue text parent next pos) (Yaml.readInlineValue floor cur.token) := by
  have place := shows.place
  rw [readInlineValue, Yaml.readInlineValue, place.dashAt_eq, place.keyAt_eq, ok_bind]
  split
  · exact .refuse place (by simp)
  · split
    · exact .refuse place (by simp)
    · exact readPlainValue_agrees least h shows

/-- Looking for what comes next agrees: where it is there it is at the token ahead. -/
def Foresees (text : Text) (cur : Cursor) :
    Except Stop Bool → Except Failure (Option Token) → Prop :=
  AgreesBy text fun follows found => found = if follows then some cur.token else none

theorem Foresees.bind {α : Type} {r : Except Stop Bool} {r' : Except Failure (Option Token)}
    {k : Bool → Except Stop (α × Nat)} {k' : Option Token → Except Failure (α × Cursor)}
    (ahead : Foresees text cur r r') (there : r' = .ok (some cur.token) →
      Agrees text (k true) (k' (some cur.token)))
    (absent : Agrees text (k false) (k' none)) : Agrees text (r >>= k) (r' >>= k') := by
  refine AgreesBy.bind ahead ?_
  rintro follows _ found rfl
  cases follows with
  | true => exact there found
  | false => exact absent

theorem atEnd_of_endsDocument {tok : Token} (more : tok.endsDocument = false) :
    tok.atEnd = false := by
  rw [Token.endsDocument, Bool.or_eq_false_iff] at more
  exact more.1

theorem entryFollows_foresees (column : Nat) (shows : Shows text pos next cur.token) :
    Foresees text cur (entryFollows text column false next) (nextEntry column cur) := by
  have place := shows.place
  rw [entryFollows, nextEntry, shows.endsDocument_eq, shows.atEnd, shows.column, shows.newLine,
    place.dashAt_eq]
  simp only [Bool.false_eq_true, if_false, ok_bind]
  by_cases before : cur.token.column < column
  · simp only [before, or_true, if_true]
    rfl
  cases ends : cur.token.endsDocument with
  | true =>
    simp only [true_or, if_true, ite_self]
    rfl
  | false =>
    simp only [atEnd_of_endsDocument ends, before, Bool.false_eq_true, or_self, if_false]
    cases cur.token.onNewLine with
    | false => exact AgreesBy.refuse place (by simp)
    | true =>
      simp only [Bool.true_eq_false, if_false, not_true]
      split
      · exact AgreesBy.refuse place (by simp)
      · cases opensItem cur.token.here.rest <;> rfl

theorem itemFollows_foresees (column : Nat) (shows : Shows text pos next cur.token) :
    Foresees text cur (itemFollows text column false next) (nextItem column cur) := by
  have place := shows.place
  rw [itemFollows, nextItem, shows.endsDocument_eq, shows.atEnd, shows.column, place.dashAt_eq]
  simp only [Bool.false_eq_true, if_false, ok_bind]
  by_cases before : cur.token.column < column
  · simp only [before, or_true, if_true]
    rfl
  cases ends : cur.token.endsDocument with
  | true =>
    simp only [true_or, if_true, ite_self]
    rfl
  | false =>
    simp only [atEnd_of_endsDocument ends, before, Bool.false_eq_true, or_self, if_false]
    cases opensItem cur.token.here.rest with
    | true =>
      simp only [if_true]
      split
      · exact AgreesBy.refuse place (by simp)
      · rfl
    | false =>
      simp only [Bool.false_eq_true, if_false]
      split
      · rfl
      · exact AgreesBy.refuse place (by simp)

/-- The entries of the block mapping at `column` behind one that ends at the cursor. -/
def otherEntries (steps column : Nat) (cur : Cursor) : Except Failure (List Entry × Cursor) := do
  match ← nextEntry column cur with
  | none => .ok ([], cur)
  | some tok => Yaml.readEntries steps column tok

/-- The items of the block sequence at `column` behind one that ends at the cursor. -/
def otherItems (steps column : Nat) (cur : Cursor) : Except Failure (List Item × Cursor) := do
  match ← nextItem column cur with
  | none => .ok ([], cur)
  | some tok => Yaml.readItems steps column tok

theorem readEntries_succ (steps column : Nat) (tok : Token) :
    Yaml.readEntries (steps + 1) column tok = (do
      let ((key, gap), colon) ← Yaml.readKey tok
      let (value, mid) ← Yaml.readEntryValue steps column colon
      let (entries, last) ← otherEntries steps column mid
      .ok (⟨.unnumbered, tok.lead, key, gap, value, none⟩ :: entries, last)) := by
  rw [Yaml.readEntries]
  cases Yaml.readKey tok with
  | error f => rfl
  | ok found =>
    simp only [ok_bind]
    cases Yaml.readEntryValue steps column found.2 with
    | error f => rfl
    | ok found =>
      simp only [ok_bind, otherEntries]
      cases nextEntry column found.2 with
      | error f => rfl
      | ok next => cases next <;> rfl

theorem readItems_succ (steps column : Nat) (tok : Token) :
    Yaml.readItems (steps + 1) column tok = (do
      let (value, mid) ←
        Yaml.readItemValue steps column (tok.here.past ['-'] (tok.here.rest.drop 1))
      let (items, last) ← otherItems steps column mid
      .ok (⟨.unnumbered, tok.lead, true, value, none⟩ :: items, last)) := by
  rw [Yaml.readItems]
  cases Yaml.readItemValue steps column (tok.here.past ['-'] (tok.here.rest.drop 1)) with
  | error f => rfl
  | ok found =>
    simp only [ok_bind, otherItems]
    cases nextItem column found.2 with
    | error f => rfl
    | ok next => cases next <;> rfl

theorem length_le_of_readEntryValue {steps column : Nat} {last : Cursor} {v : Value}
    (read : Yaml.readEntryValue steps column cur = .ok (v, last)) :
    last.rest.length ≤ cur.rest.length :=
  ((blockSound steps).entryValue read rfl).takes.length_le

theorem length_le_of_readItemValue {steps column : Nat} {last : Cursor} {v : Value}
    (read : Yaml.readItemValue steps column cur = .ok (v, last)) :
    last.rest.length ≤ cur.rest.length :=
  ((blockSound steps).itemValue read rfl).takes.length_le

theorem length_lt_of_readKey {tok : Token} {last : Cursor} {key : Scalar} {gap : Text}
    (read : Yaml.readKey tok = .ok ((key, gap), last)) :
    last.rest.length + 1 < tok.here.rest.length := by
  rw [← readKey_unnumbered read] at read
  exact readKey_length_lt read

/-! ## Block collections -/

/-- The readers of block collections agree in `steps` steps. There are three steps from a collection
down to the next one inside, and the first takes a key or a dash. -/
structure BlockAgrees (text : Text) (steps : Nat) : Prop where
  value {pos : Nat} {next : Next} {cur : Cursor} {parent : Int} {floor : Nat}
    (least : (floor : Int) = parent + 1) (h : At text pos cur)
    (shows : Shows text pos next cur.token)
    (enough : 3 * cur.token.here.rest.length + 2 ≤ steps) :
    Agrees text (readValue text parent next pos) (Yaml.readValue steps floor cur.token)
  entries {pos : Nat} {cur : Cursor} (column : Nat) (h : At text pos cur)
    (enough : 3 * cur.token.here.rest.length + 1 ≤ steps) :
    Agrees text (readEntries text column true pos) (Yaml.readEntries steps column cur.token)
  entryValue {pos : Nat} {cur : Cursor} (column : Nat) (h : At text pos cur)
    (enough : 3 * cur.rest.length + 3 ≤ steps) :
    Agrees text (readEntryValue text column pos) (Yaml.readEntryValue steps column cur)
  items {pos : Nat} {cur : Cursor} (column : Nat) (h : At text pos cur)
    (opens : opensItem cur.token.here.rest = true)
    (enough : 3 * cur.token.here.rest.length + 1 ≤ steps) :
    Agrees text (readItems text column true pos) (Yaml.readItems steps column cur.token)
  itemValue {pos : Nat} {cur : Cursor} (column : Nat) (h : At text pos cur)
    (enough : 3 * cur.rest.length + 3 ≤ steps) :
    Agrees text (readItemValue text column pos) (Yaml.readItemValue steps column cur)

section

variable {steps : Nat} (ih : BlockAgrees text steps)

include ih

theorem readValue_agrees_step {parent : Int} {floor : Nat} (least : (floor : Int) = parent + 1)
    (h : At text pos cur) (shows : Shows text pos next cur.token)
    (enough : 3 * cur.token.here.rest.length + 2 ≤ steps + 1) :
    Agrees text (readValue text parent next pos)
      (Yaml.readValue (steps + 1) floor cur.token) := by
  have place := shows.place
  rw [readValue, Yaml.readValue, place.dashAt_eq, place.keyAt_eq, ok_bind, shows.column]
  split
  · rename_i opens
    refine (ih.items _ h opens (by omega)).bind ?_
    intro items pos' last _ behind
    exact .ok _ behind
  · split
    · refine (ih.entries _ h (by omega)).bind ?_
      intro entries pos' last _ behind
      exact .ok _ behind
    · exact readPlainValue_agrees least h shows

/-- The rounds after the first. -/
theorem otherEntries_agrees (column : Nat) (h : At text pos cur)
    (enough : 3 * cur.token.here.rest.length + 1 ≤ steps) :
    Agrees text (readEntries text column false pos) (otherEntries steps column cur) := by
  obtain ⟨next, peeked, shows⟩ := h.peek_eq
  have onwards := ih.entries column h enough
  -- A round is the same for the first entry, but for the look at what comes next.
  rw [readEntries, peeked, ok_bind] at onwards ⊢
  refine (entryFollows_foresees column shows).bind ?_ ?_
  · intro _
    exact onwards
  · exact .ok _ h

theorem otherItems_agrees (column : Nat) (h : At text pos cur)
    (enough : 3 * cur.token.here.rest.length + 1 ≤ steps) :
    Agrees text (readItems text column false pos) (otherItems steps column cur) := by
  obtain ⟨next, peeked, shows⟩ := h.peek_eq
  have onwards := fun opens => ih.items column h opens enough
  rw [readItems, peeked, ok_bind] at onwards ⊢
  refine (itemFollows_foresees column shows).bind ?_ ?_
  · intro found
    exact onwards (nextItem_eq_some.mp found).2.2.2
  · exact .ok _ h

theorem readEntries_agrees_step (column : Nat) (h : At text pos cur)
    (enough : 3 * cur.token.here.rest.length + 1 ≤ steps + 1) :
    Agrees text (readEntries text column true pos)
      (Yaml.readEntries (steps + 1) column cur.token) := by
  obtain ⟨next, peeked, shows⟩ := h.peek_eq
  obtain ⟨within, taken⟩ := shows.takeUntil_eq h
  have place := shows.place
  have ahead := cur.length_token_le
  rw [readEntries, readEntries_succ, peeked]
  simp only [entryFollows, if_true, ok_bind, place.keyAt_eq, taken]
  cases opens : opensEntry cur.token.here.rest with
  | false =>
    have missing : Yaml.readKey cur.token = fail .keyExpected cur.token.here := by
      rw [Yaml.readKey, Option.isNone_iff_eq_none.mp (Option.isSome_eq_false_iff.mp opens)]
    rw [missing]
    exact .refuse place (by simp)
  | true =>
    have key : Agrees text (readKey text next.offset) (Yaml.readKey cur.token) :=
      readKey_agrees place opens
    refine key.bind ?_
    rintro ⟨key, gap⟩ pos₁ colon keyRead atColon
    have keyLength := length_lt_of_readKey keyRead
    simp only [atColon.advance_eq (h.lt atColon (by omega)), ok_bind]
    refine (ih.entryValue column atColon (by omega)).bind ?_
    intro value pos₂ mid valueRead atMid
    have valueLength := length_le_of_readEntryValue valueRead
    have nextLength := mid.length_token_le
    simp only [atMid.advance_eq (h.lt atMid (by omega)), ok_bind]
    refine (otherEntries_agrees ih column atMid (by omega)).bind ?_
    intro entries pos₃ last _ behind
    exact .ok _ behind

theorem readItems_agrees_step (column : Nat) (h : At text pos cur)
    (opens : opensItem cur.token.here.rest = true)
    (enough : 3 * cur.token.here.rest.length + 1 ≤ steps + 1) :
    Agrees text (readItems text column true pos)
      (Yaml.readItems (steps + 1) column cur.token) := by
  obtain ⟨next, peeked, shows⟩ := h.peek_eq
  obtain ⟨within, taken⟩ := shows.takeUntil_eq h
  obtain ⟨rest, dash, -⟩ := opensItem_eq_true opens
  have ahead := cur.length_token_le
  have inside := shows.place.succ dash rfl
  have behindDash : pos < next.offset + 1 := Nat.lt_succ_of_le within.1
  rw [readItems, readItems_succ, peeked]
  rw [dash, List.length_cons] at enough ahead
  simp only [itemFollows, if_true, ok_bind, taken, inside.advance_eq behindDash, dash,
    List.drop_one, List.tail_cons]
  refine (ih.itemValue column inside (by rw [Cursor.rest_past]; omega)).bind ?_
  intro value pos₁ mid valueRead atMid
  have valueLength := length_le_of_readItemValue valueRead
  rw [Cursor.rest_past] at valueLength
  have nextLength := mid.length_token_le
  simp only [atMid.advance_eq (h.lt atMid (by omega)), ok_bind]
  refine (otherItems_agrees ih column atMid (by omega)).bind ?_
  intro items pos₂ last _ behind
  exact .ok _ behind

theorem readEntryValue_agrees_step (column : Nat) (h : At text pos cur)
    (enough : 3 * cur.rest.length + 3 ≤ steps + 1) :
    Agrees text (readEntryValue text column pos) (Yaml.readEntryValue (steps + 1) column cur) := by
  obtain ⟨next, peeked, shows⟩ := h.peek_eq
  have ahead := cur.length_token_le
  have least : ((column + 1 : Nat) : Int) = (column : Int) + 1 := by omega
  rw [readEntryValue, Yaml.readEntryValue, peeked]
  simp only [ok_bind, shows.endsDocument_eq, shows.newLine, shows.column, shows.place.dashAt_eq]
  split
  · exact .ok _ h
  cases cur.token.onNewLine with
  | false => exact readInlineValue_agrees least h shows
  | true =>
    simp only [Bool.true_eq_false, if_false, not_true]
    split
    · exact ih.value least h shows (by omega)
    split
    · rename_i level
      refine (ih.items column h level.2 (by omega)).bind ?_
      intro items pos₁ last _ behind
      exact .ok _ behind
    · exact .ok _ h

theorem readItemValue_agrees_step (column : Nat) (h : At text pos cur)
    (enough : 3 * cur.rest.length + 3 ≤ steps + 1) :
    Agrees text (readItemValue text column pos) (Yaml.readItemValue (steps + 1) column cur) := by
  obtain ⟨next, peeked, shows⟩ := h.peek_eq
  have ahead := cur.length_token_le
  have least : ((column + 1 : Nat) : Int) = (column : Int) + 1 := by omega
  rw [readItemValue, Yaml.readItemValue, peeked]
  simp only [ok_bind, shows.endsDocument_eq, shows.newLine, shows.column]
  cases cur.token.endsDocument with
  | true => exact .ok _ h
  | false =>
    have value := ih.value least h shows (by omega)
    have inside : (cur.token.onNewLine = false ∨ column < cur.token.column) ↔
        ¬ (false = true ∨ (cur.token.onNewLine = true ∧ cur.token.column ≤ column)) := by
      cases cur.token.onNewLine <;> simp
    rw [if_neg Bool.false_ne_true]
    split
    · rename_i further
      rw [if_neg (inside.mp further)]
      exact value
    · rename_i notFurther
      rw [if_pos (Decidable.not_not.mp (mt inside.mpr notFurther))]
      exact .ok _ h

omit ih

theorem blockAgrees (text : Text) (steps : Nat) : BlockAgrees text steps := by
  induction steps with
  | zero =>
    exact ⟨by intros; omega, by intros; omega, by intros; omega, by intros; omega,
      by intros; omega⟩
  | succ steps ih =>
    exact ⟨readValue_agrees_step ih, readEntries_agrees_step ih, readEntryValue_agrees_step ih,
      readItems_agrees_step ih, readItemValue_agrees_step ih⟩

end

end ConfigTree.Yaml.ByOffset
