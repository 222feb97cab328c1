import ConfigTree.Proofs.Yaml.Adequacy
import ConfigTree.Proofs.Yaml.ByOffset.Scalars

/-!
# Flow collections by offsets

The readers of flow collections by offsets agree with those by cursors, whatever budget these are
given that suffices for what is left. A step of theirs hands the next a smaller rest, so the offsets
at which they come back lie further on.
-/

namespace ConfigTree.Yaml.ByOffset

variable {text : Text} {pos : Nat} {next : Next} {cur here : Cursor} {lead : Text}

/-- A comma, or the end of the collection that is left for its reader. -/
theorem takeComma_agrees {closing : Char} (narrow : closing.toNat < 128) (h : At text pos cur) :
    Agrees text (takeComma text closing pos) (readComma closing cur) := by
  obtain ⟨next, peeked, shows⟩ := h.peek_eq
  obtain ⟨within, taken⟩ := shows.takeUntil_eq h
  cases token : cur.token with | mk lead here => ?_
  rw [token] at shows taken
  have place : At text next.offset here := shows.place
  simp only [takeComma, readComma, peeked, token, ok_bind, shows.atEnd, Token.atEnd]
  cases rest : here.rest with
  | nil => exact .refuse place (by simp)
  | cons c t =>
    simp only [List.isEmpty_cons, Bool.false_eq_true, if_false, taken, ok_bind,
      place.byteAt_cons rest narrow, place.byteAt_cons rest (show ','.toNat < 128 by decide)]
    split
    · rename_i comma
      subst comma
      exact .ok _ (place.succ rest rfl)
    · split
      · exact .ok _ h
      · exact .refuse place (by simp)

theorem length_lt_of_readFlowValue {steps : Nat} {last : Cursor} {v : Value}
    (read : Yaml.readFlowValue steps cur.token = .ok (v, last)) :
    last.rest.length < cur.token.here.rest.length :=
  ((flowSound steps).value read rfl).length_lt

theorem length_le_of_readFlowEntryValue {steps : Nat} {last : Cursor} {v : Value}
    (read : Yaml.readFlowEntryValue steps cur = .ok (v, last)) :
    last.rest.length ≤ cur.rest.length :=
  ((flowSound steps).entryValue read rfl).takes.length_le

theorem length_lt_of_readFlowKey {last : Cursor} {key : Scalar} {gap : Text}
    (read : Yaml.readFlowKey here = .ok ((key, gap), last)) :
    last.rest.length < here.rest.length := by
  rw [← readFlowKey_unnumbered read] at read
  exact readFlowKey_length_lt read

/-- The readers of flow collections agree in `steps` steps. A collection goes down two steps for each
character that it takes, one to its items or entries and one to their values. -/
structure FlowAgrees (text : Text) (steps : Nat) : Prop where
  value {pos : Nat} {next : Next} {cur : Cursor} (h : At text pos cur)
    (shows : Shows text pos next cur.token)
    (enough : 2 * cur.token.here.rest.length + 1 ≤ steps) :
    Agrees text (readFlowValue text next pos) (Yaml.readFlowValue steps cur.token)
  items {pos : Nat} {cur : Cursor} (h : At text pos cur)
    (enough : 2 * cur.rest.length + 2 ≤ steps) :
    Agrees text (readFlowItems text pos) (Yaml.readFlowItems steps cur)
  entries {pos : Nat} {cur : Cursor} (h : At text pos cur)
    (enough : 2 * cur.rest.length + 2 ≤ steps) :
    Agrees text (readFlowEntries text pos) (Yaml.readFlowEntries steps cur)
  entryValue {pos : Nat} {cur : Cursor} (h : At text pos cur)
    (enough : 2 * cur.rest.length + 2 ≤ steps) :
    Agrees text (readFlowEntryValue text pos) (Yaml.readFlowEntryValue steps cur)

section

variable {steps : Nat} (ih : FlowAgrees text steps)

include ih

theorem readFlowValue_agrees_step (h : At text pos cur) (shows : Shows text pos next cur.token)
    (enough : 2 * cur.token.here.rest.length + 1 ≤ steps + 1) :
    Agrees text (readFlowValue text next pos) (Yaml.readFlowValue (steps + 1) cur.token) := by
  obtain ⟨within, taken⟩ := shows.takeUntil_eq h
  have place := shows.place
  rw [readFlowValue, Yaml.readFlowValue]
  by_cases sequence : cur.token.here.rest.head? = some '['
  · obtain ⟨t, opening⟩ := List.head?_eq_some_iff.mp sequence
    have inside := place.succ opening rfl
    rw [opening, List.length_cons] at enough
    simp only [(place.byteAt_eq_some (by decide)).mpr sequence, if_true, taken, ok_bind,
      inside.advance_eq (Nat.lt_succ_self _), opening]
    refine (ih.items inside (by rw [Cursor.rest_past]; omega)).bind ?_
    rintro ⟨items, closing⟩ pos' last _ behind
    exact .ok _ behind
  by_cases mapping : cur.token.here.rest.head? = some '\x7b'
  · obtain ⟨t, opening⟩ := List.head?_eq_some_iff.mp mapping
    have inside := place.succ opening rfl
    rw [opening, List.length_cons] at enough
    simp only [(place.byteAt_eq_some (by decide)).mpr mapping, if_true, taken, ok_bind,
      inside.advance_eq (Nat.lt_succ_self _), opening, Option.some_inj, Char.reduceEq, if_false]
    refine (ih.entries inside (by rw [Cursor.rest_past]; omega)).bind ?_
    rintro ⟨entries, closing⟩ pos' last _ behind
    exact .ok _ behind
  · rw [if_neg (mt (place.byteAt_eq_some (by decide)).mp sequence),
      if_neg (mt (place.byteAt_eq_some (by decide)).mp mapping), shows.offset]
    split
    · simp_all
    · simp_all
    · refine (readScalar_agrees true h cur.takes_token).bind ?_
      intro scalar pos' last _ behind
      exact .ok _ behind

theorem readFlowItems_agrees_step (h : At text pos cur)
    (enough : 2 * cur.rest.length + 2 ≤ steps + 1) :
    Agrees text (readFlowItems text pos) (Yaml.readFlowItems (steps + 1) cur) := by
  obtain ⟨next, peeked, shows⟩ := h.peek_eq
  obtain ⟨within, taken⟩ := shows.takeUntil_eq h
  have shorter := cur.length_token_le
  cases token : cur.token with | mk lead here => ?_
  rw [token] at shows taken shorter
  have place : At text next.offset here := shows.place
  rw [readFlowItems, Yaml.readFlowItems, peeked, token]
  simp only [ok_bind, shows.atEnd, Token.atEnd]
  cases rest : here.rest with
  | nil => exact .refuse place (by simp)
  | cons c t =>
    simp only [List.isEmpty_cons, Bool.false_eq_true, if_false, taken, ok_bind,
      place.byteAt_cons rest (show ']'.toNat < 128 by decide)]
    by_cases closes : c = ']'
    · subst closes
      have behind := place.succ rest rfl
      rw [if_pos rfl, behind.advance_eq (show pos < next.offset + 1 by omega)]
      exact .ok _ behind
    · -- The item has been reached, so looking for it once more skips nothing.
      obtain ⟨next', peeked', shows'⟩ := place.peek_eq
      have again := cur.token_of_token token
      dsimp only at shorter
      have value := ih.value place shows' (by rw [again]; dsimp only; omega)
      rw [again] at value
      rw [if_neg closes, peeked', ok_bind]
      split
      · contradiction
      · exact absurd (List.cons.inj ‹_›).1 closes
      refine value.bind ?_
      intro value pos₁ mid valueRead atMid
      refine (takeComma_agrees (by decide) atMid).bind ?_
      intro comma pos₂ last commaRead atLast
      rw [← again] at valueRead
      have valueLength := length_lt_of_readFlowValue valueRead
      rw [again] at valueLength
      dsimp only at valueLength
      have commaLength := (readComma_takes commaRead).length_le
      simp only [atLast.advance_eq (h.lt atLast (by omega)), ok_bind]
      refine (ih.items atLast (by omega)).bind ?_
      rintro ⟨items, closing⟩ pos₃ final _ behind
      exact .ok _ behind

theorem readFlowEntries_agrees_step (h : At text pos cur)
    (enough : 2 * cur.rest.length + 2 ≤ steps + 1) :
    Agrees text (readFlowEntries text pos) (Yaml.readFlowEntries (steps + 1) cur) := by
  obtain ⟨next, peeked, shows⟩ := h.peek_eq
  obtain ⟨within, taken⟩ := shows.takeUntil_eq h
  have shorter := cur.length_token_le
  cases token : cur.token with | mk lead here => ?_
  rw [token] at shows taken shorter
  have place : At text next.offset here := shows.place
  rw [readFlowEntries, Yaml.readFlowEntries, peeked, token]
  simp only [ok_bind, shows.atEnd, Token.atEnd]
  cases rest : here.rest with
  | nil => exact .refuse place (by simp)
  | cons c t =>
    simp only [List.isEmpty_cons, Bool.false_eq_true, if_false, taken, ok_bind,
      place.byteAt_cons rest (show '\x7d'.toNat < 128 by decide)]
    by_cases closes : c = '\x7d'
    · subst closes
      have behind := place.succ rest rfl
      rw [if_pos rfl, behind.advance_eq (show pos < next.offset + 1 by omega)]
      exact .ok _ behind
    · dsimp only at shorter
      rw [if_neg closes]
      split
      · contradiction
      · exact absurd (List.cons.inj ‹_›).1 closes
      refine (readFlowKey_agrees place).bind ?_
      rintro ⟨key, gap⟩ pos₁ colon keyRead atColon
      have keyLength := length_lt_of_readFlowKey keyRead
      simp only [atColon.advance_eq (h.lt atColon (by omega)), ok_bind]
      refine (ih.entryValue atColon (by omega)).bind ?_
      intro value pos₂ mid valueRead atMid
      refine (takeComma_agrees (by decide) atMid).bind ?_
      intro comma pos₃ last commaRead atLast
      have valueLength := length_le_of_readFlowEntryValue valueRead
      have commaLength := (readComma_takes commaRead).length_le
      simp only [atLast.advance_eq (h.lt atLast (by omega)), ok_bind]
      refine (ih.entries atLast (by omega)).bind ?_
      rintro ⟨entries, closing⟩ pos₄ final _ behind
      exact .ok _ behind

theorem readFlowEntryValue_agrees_step (h : At text pos cur)
    (enough : 2 * cur.rest.length + 2 ≤ steps + 1) :
    Agrees text (readFlowEntryValue text pos) (Yaml.readFlowEntryValue (steps + 1) cur) := by
  obtain ⟨next, peeked, shows⟩ := h.peek_eq
  have place := shows.place
  have shorter := cur.length_token_le
  rw [readFlowEntryValue, Yaml.readFlowEntryValue, peeked]
  simp only [ok_bind, shows.atEnd, Token.atEnd]
  cases rest : cur.token.here.rest with
  | nil => exact .refuse place (by simp)
  | cons c t =>
    simp only [List.isEmpty_cons, Bool.false_eq_true, if_false,
      place.byteAt_cons rest (show ','.toNat < 128 by decide),
      place.byteAt_cons rest (show '\x7d'.toNat < 128 by decide)]
    split
    · exact .ok _ h
    · exact ih.value h shows (by omega)

omit ih

theorem flowAgrees (text : Text) (steps : Nat) : FlowAgrees text steps := by
  induction steps with
  | zero => exact ⟨by intros; omega, by intros; omega, by intros; omega, by intros; omega⟩
  | succ steps ih =>
    exact ⟨readFlowValue_agrees_step ih, readFlowItems_agrees_step ih,
      readFlowEntries_agrees_step ih, readFlowEntryValue_agrees_step ih⟩

end

end ConfigTree.Yaml.ByOffset
