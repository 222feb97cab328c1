import ConfigTree.Proofs.Yaml.Locality
import ConfigTree.Text.Utf8

/-!
# Edits of plain scalars

A plain scalar that stands in a block collection is replaced by another one. Here is how the edited
tree is related to the tree before, and what can be said of its text: values begin as they began,
and what is ahead of a place in front of the edit looks as it looked.
-/

namespace ConfigTree.Yaml

/-- The texts that are read back as they are when they stand as plain scalars in block context. -/
structure PlainText (text : Text) : Prop where
  nonempty : text ≠ []
  supported : unsupported text = none
  notIndicator : ∀ c ∈ text.head?, c ∉ ['[', '\x7b', '|', '>']
  starts : trivia true false text = ([], text)
  notItem : opensItem text = false
  scanned : scanScalar false text = some ⟨.plain, text, []⟩

namespace PlainText

variable {text : Text}

theorem scanPlain_nil (h : PlainText text) : scanPlain false (text ++ []) = (text, []) := by
  rw [List.append_nil]
  exact (scanScalar_eq_plain.mp h.scanned).2

/-- A plain text is scanned in front of everything that a plain scalar can stop at. -/
theorem scanScalar_append (h : PlainText text) {rest : Text} (stops : plainStops false rest) :
    scanScalar false (text ++ rest) = some ⟨.plain, text, rest⟩ := by
  obtain ⟨notQuote, -⟩ := scanScalar_eq_plain.mp h.scanned
  refine scanScalar_eq_plain.mpr ⟨?_, scanPlain_append_of h.scanPlain_nil h.nonempty ?_ stops⟩
  · have head := head_append h.nonempty rest []
    rw [List.append_nil] at head
    rwa [head]
  · intro
    rfl

end PlainText

/-- The scalar `new` can take the place of the plain scalar `old`. -/
structure Replaces (old new : Scalar) : Prop where
  style : old.style = .plain
  unmarked : old.mark = none
  nonempty : old.text ≠ []
  lead : new.lead = old.lead
  newStyle : new.style = .plain
  newUnmarked : new.mark = none
  plain : PlainText new.text

/-- Whether there is nothing more on the line, apart from a comment. -/
def EndsLine (t : Text) : Prop := '\n' ∈ (trivia false false t).1 ∨ (trivia false false t).2 = []

/-- What stands behind the scalar keeps its column when the scalar is replaced. -/
def KeepsColumn (old new : Scalar) (after : Text) : Prop :=
  EndsLine after ∨ (Text.utf8 new.text).length = (Text.utf8 old.text).length

theorem columnAfter_eq_add {t : Text} (h : '\n' ∉ t) (column : Nat) :
    columnAfter column t = column + (Text.utf8 t).length := by
  induction t generalizing column with
  | nil => rfl
  | cons c t ih =>
    rw [List.mem_cons, not_or] at h
    rw [columnAfter, if_neg (Ne.symm h.1), ih h.2, Text.utf8_cons, List.length_append,
      String.length_utf8EncodeChar, Nat.add_assoc]

mutual

/-- The second value is the first with `new` in the place of `old` where `old` is the value of an
entry or an item of a block collection inside and keeps the column of what stands behind it. Behind
the value stands `rest`. -/
inductive Value.Edits (old new : Scalar) : Text → Value → Value → Prop where
  | same {rest : Text} (v : Value) : Value.Edits old new rest v v
  | mapping {rest : Text} {id id' : NodeId} {es es' : List Entry}
      (entries : EntriesEdits old new rest es es') :
      Value.Edits old new rest (.mapping ⟨id, .block, es⟩) (.mapping ⟨id', .block, es'⟩)
  | sequence {rest : Text} {id id' : NodeId} {is is' : List Item}
      (items : ItemsEdits old new rest is is') :
      Value.Edits old new rest (.sequence ⟨id, .block, is⟩) (.sequence ⟨id', .block, is'⟩)

/-- The same for a value that stands in a block collection itself. -/
inductive SlotEdits (old new : Scalar) : Text → Value → Value → Prop where
  | inside {rest : Text} {v v' : Value} (edit : Value.Edits old new rest v v') :
      SlotEdits old new rest v v'
  | replaced {rest : Text} (keeps : KeepsColumn old new rest) :
      SlotEdits old new rest (.scalar old) (.scalar new)

inductive EntriesEdits (old new : Scalar) : Text → List Entry → List Entry → Prop where
  | nil {rest : Text} : EntriesEdits old new rest [] []
  | cons {rest : Text} {id id' : NodeId} {lead gap : Text} {key : Scalar} {value value' : Value}
      {comma : Option Text} {es es' : List Entry}
      (edit : SlotEdits old new (entriesPrint es ++ rest) value value')
      (others : EntriesEdits old new rest es es') :
      EntriesEdits old new rest (⟨id, lead, key, gap, value, comma⟩ :: es)
        (⟨id', lead, key, gap, value', comma⟩ :: es')

inductive ItemsEdits (old new : Scalar) : Text → List Item → List Item → Prop where
  | nil {rest : Text} : ItemsEdits old new rest [] []
  | cons {rest : Text} {id id' : NodeId} {lead : Text} {dash : Bool} {value value' : Value}
      {comma : Option Text} {is is' : List Item}
      (edit : SlotEdits old new (itemsPrint is ++ rest) value value')
      (others : ItemsEdits old new rest is is') :
      ItemsEdits old new rest (⟨id, lead, dash, value, comma⟩ :: is)
        (⟨id', lead, dash, value', comma⟩ :: is')

end

variable {old new : Scalar} {behind : Text}

theorem EntriesEdits.refl (es : List Entry) : EntriesEdits old new behind es es := by
  induction es with
  | nil => exact .nil
  | cons e es ih =>
    obtain ⟨id, lead, key, gap, value, comma⟩ := e
    exact .cons (.inside (.same value)) ih

theorem ItemsEdits.refl (is : List Item) : ItemsEdits old new behind is is := by
  induction is with
  | nil => exact .nil
  | cons i is ih =>
    obtain ⟨id, lead, dash, value, comma⟩ := i
    exact .cons (.inside (.same value)) ih

theorem SlotEdits.of_mapping {id : NodeId} {es : List Entry} {v' : Value}
    (h : SlotEdits old new behind (.mapping ⟨id, .block, es⟩) v') :
    ∃ id' es', v' = .mapping ⟨id', .block, es'⟩ ∧ EntriesEdits old new behind es es' := by
  cases h with
  | inside edit =>
    cases edit with
    | same => exact ⟨id, es, rfl, .refl es⟩
    | mapping entries => exact ⟨_, _, rfl, entries⟩

theorem SlotEdits.of_sequence {id : NodeId} {is : List Item} {v' : Value}
    (h : SlotEdits old new behind (.sequence ⟨id, .block, is⟩) v') :
    ∃ id' is', v' = .sequence ⟨id', .block, is'⟩ ∧ ItemsEdits old new behind is is' := by
  cases h with
  | inside edit =>
    cases edit with
    | same => exact ⟨id, is, rfl, .refl is⟩
    | sequence items => exact ⟨_, _, rfl, items⟩

/-- A scalar stays as it is or is the one replaced. -/
theorem SlotEdits.of_scalar {s : Scalar} {v' : Value}
    (h : SlotEdits old new behind (.scalar s) v') :
    v' = .scalar s ∨ s = old ∧ v' = .scalar new := by
  cases h with
  | inside edit =>
    cases edit with
    | same => exact .inl rfl
  | replaced => exact .inr ⟨rfl, rfl⟩

/-! ## How edited values begin -/

/-- The first entry, whatever comes after it. -/
theorem ReadsEntries.first {column : Nat} {cur last : Cursor} {es : List Entry}
    (h : ReadsEntries column cur es last) :
    ∃ id lead here key gap value afterColon mid others,
      es = ⟨id, lead, key, gap, value, none⟩ :: others ∧ cur.token = ⟨lead, here⟩ ∧
      readKey ⟨lead, here⟩ = .ok ((key.unnumbered, gap), afterColon) ∧
      ReadsEntryValue column afterColon value mid ∧
      (others = [] ∧ mid = last ∨
        nextEntry column mid = .ok (some mid.token) ∧ ReadsEntries column mid others last) := by
  cases h with
  | last found keyRead valueRead next =>
    exact ⟨_, _, _, _, _, _, _, _, _, rfl, found, keyRead, valueRead, .inl ⟨rfl, rfl⟩⟩
  | more found keyRead valueRead next others =>
    exact ⟨_, _, _, _, _, _, _, _, _, rfl, found, keyRead, valueRead, .inr ⟨next, others⟩⟩

/-- The first item, whatever comes after it. -/
theorem ReadsItems.first {column : Nat} {cur last : Cursor} {is : List Item}
    (h : ReadsItems column cur is last) :
    ∃ id lead here dashRest value mid others,
      is = ⟨id, lead, true, value, none⟩ :: others ∧ cur.token = ⟨lead, here⟩ ∧
      here.rest = '-' :: dashRest ∧ blankOrEnd dashRest = true ∧
      ReadsItemValue column (here.past ['-'] dashRest) value mid ∧
      (others = [] ∧ mid = last ∨
        nextItem column mid = .ok (some mid.token) ∧ ReadsItems column mid others last) := by
  cases h with
  | last found dash opens valueRead next =>
    exact ⟨_, _, _, _, _, _, _, rfl, found, dash, opens, valueRead, .inl ⟨rfl, rfl⟩⟩
  | more found dash opens valueRead next others =>
    exact ⟨_, _, _, _, _, _, _, rfl, found, dash, opens, valueRead, .inr ⟨next, others⟩⟩

theorem ReadsEntries.begins {column : Nat} {cur last : Cursor} {es es' : List Entry}
    (h : ReadsEntries column cur es last) (edit : EntriesEdits old new behind es es') :
    cur.token.Begins (entriesPrint es') := by
  obtain ⟨id, lead, here, key, gap, value, afterColon, mid, others, rfl, found, keyRead, -⟩ :=
    h.first
  obtain ⟨taken, -, keyLead, unmarked⟩ := readKey_takes keyRead
  cases edit with
  | cons edit others =>
    rw [entriesPrint_cons, Entry.print_mk unmarked keyLead, List.append_assoc]
    refine (((cur.takes_of_token found).trans taken).begins ?_).append _
    have shorter := readKey_length_lt keyRead
    rw [found]
    exact Nat.lt_of_succ_lt shorter

theorem ReadsItems.begins {column : Nat} {cur last : Cursor} {is is' : List Item}
    (h : ReadsItems column cur is last) (edit : ItemsEdits old new behind is is') :
    cur.token.Begins (itemsPrint is') := by
  obtain ⟨id, lead, here, dashRest, value, mid, others, rfl, found, dash, -⟩ := h.first
  cases edit with
  | cons edit others =>
    rw [itemsPrint_cons, Item.print_dash, List.append_assoc]
    refine (((cur.takes_of_token found).trans (.past dash)).begins ?_).append _
    rw [found, dash]
    exact Nat.lt_succ_self _

theorem Replaces.print_eq (h : Replaces old new) :
    (Value.scalar new).print = old.lead ++ new.text := by
  rw [Value.print_scalar h.newUnmarked, h.lead, Scalar.written, h.newStyle]

/-- A plain scalar that was read in block context is the plain scalar at its token. -/
theorem ReadsPlainValue.of_plain {floor : Nat} {cur last : Cursor} {s : Scalar}
    (h : ReadsPlainValue floor cur (.scalar s) last) (plain : s.style = .plain) :
    (∀ c ∈ cur.token.here.rest.head?, c ∉ ['[', '\x7b', '|', '>']) ∧
      readScalar false cur.token = .ok (s.unnumbered, last) := by
  cases h with
  | flow opening valueRead =>
    cases valueRead with
    | scalar notSequence notMapping read => rcases opening with opening | opening <;> contradiction
  | block indicator opening read =>
    have style : s.style = _ := congrArg (·.1.style) read.symm
    rcases indicator with ⟨rfl, -⟩ | ⟨rfl, -⟩ <;> rw [style] at plain <;> contradiction
  | scalar notIndicator read => exact ⟨notIndicator, read⟩

/-- A value that opens no block collection is left alone or is the scalar replaced. -/
theorem ReadsPlainValue.edit_cases {floor : Nat} {cur last : Cursor} {v v' : Value}
    (h : ReadsPlainValue floor cur v last) (edit : SlotEdits old new behind v v') :
    v' = v ∨ v = .scalar old ∧ v' = .scalar new ∧ KeepsColumn old new behind := by
  cases edit with
  | replaced keeps => exact .inr ⟨rfl, rfl, keeps⟩
  | inside edit =>
    cases edit with
    | same => exact .inl rfl
    | mapping => cases h with | flow _ valueRead => cases valueRead
    | sequence => cases h with | flow _ valueRead => cases valueRead

/-- A value begins where it began. Where the old scalar stood a comment could have begun, so the new
one must not look like one. -/
theorem ReadsPlainValue.begins {floor : Nat} {cur last : Cursor} {v v' : Value}
    (replaces : Replaces old new) (h : ReadsPlainValue floor cur v last)
    (edit : SlotEdits old new behind v v')
    (slot : Value.Edits old new behind v v' ∨ cur.token.here.commentMayOpen = true) :
    cur.token.Begins v'.print := by
  have unedited : cur.token.Begins v.print := h.takes.begins h.length_lt
  rcases h.edit_cases edit with rfl | ⟨rfl, rfl, -⟩
  · exact unedited
  · rcases slot with edit | mayOpen
    · cases edit
      exact unedited
    · obtain ⟨-, -, lead, -⟩ := readScalar_takes (h.of_plain replaces.style).2
      rw [replaces.print_eq, lead]
      exact ⟨new.text, rfl, replaces.plain.nonempty, mayOpen ▸ replaces.plain.starts⟩

theorem ReadsValue.begins {floor : Nat} {cur last : Cursor} {v v' : Value}
    (replaces : Replaces old new) (h : ReadsValue floor cur v last)
    (edit : SlotEdits old new behind v v')
    (slot : Value.Edits old new behind v v' ∨ cur.token.here.commentMayOpen = true) :
    cur.token.Begins v'.print := by
  cases h with
  | sequence opens itemsRead =>
    obtain ⟨id', is', rfl, items⟩ := edit.of_sequence
    exact itemsRead.begins items
  | mapping notItem opens entriesRead =>
    obtain ⟨id', es', rfl, entries⟩ := edit.of_mapping
    exact entriesRead.begins entries
  | plain notItem notEntry valueRead => exact valueRead.begins replaces edit slot

/-- Behind the colon of a key and the dash of an item stand blanks, after which a
comment may open. -/
theorem Cursor.mayOpen_of_blankOrEnd {cur : Cursor} (closed : blankOrEnd cur.rest = true)
    (more : cur.token.here.rest ≠ []) :
    cur.token.lead ≠ [] ∧ cur.token.here.commentMayOpen = true := by
  have found := cur.trivia_token
  have nonempty : cur.token.lead ≠ [] := by
    intro empty
    rw [← cur.lead_append_token, empty, List.nil_append] at closed
    rw [empty] at found
    obtain ⟨c, cs, here⟩ := List.exists_cons_of_ne_nil more
    rw [here] at found closed
    exact Bool.noConfusion (closed.symm.trans (trivia_cons_eq_nil.mp found).1)
  exact ⟨nonempty, openAfter_of_trivia found more nonempty⟩

/-- A text that begins with the trivia ahead begins with the same blank. -/
theorem Token.Begins.head {cur : Cursor} {t : Text} (h : cur.token.Begins t)
    (nonempty : cur.token.lead ≠ []) : t.head? = cur.rest.head? := by
  obtain ⟨rest, rfl, -, -⟩ := h
  rw [← cur.lead_append_token]
  exact head_append nonempty _ _

theorem ne_nil_of_shorter {s t : Text} (h : s.length < t.length) : t ≠ [] :=
  List.ne_nil_of_length_pos (Nat.zero_lt_of_lt h)

/-- An absent value stays absent, and every other begins where it began. -/
theorem SlotEdits.of_empty (replaces : Replaces old new) {s : Scalar} {v' : Value}
    (empty : s.unnumbered = .fresh [] .plain []) (h : SlotEdits old new behind (.scalar s) v') :
    v' = .scalar s := by
  rcases h.of_scalar with same | ⟨rfl, -⟩
  · exact same
  · exact absurd (congrArg Scalar.text empty) replaces.nonempty

theorem ReadsEntryValue.begins {column : Nat} {cur last : Cursor} {v v' : Value}
    (replaces : Replaces old new) (h : ReadsEntryValue column cur v last)
    (edit : SlotEdits old new behind v v') (closed : blankOrEnd cur.rest = true) :
    (v'.print = [] ∧ last = cur) ∨ cur.token.Begins v'.print ∧ cur.token.here.rest ≠ [] := by
  cases h with
  | absent empty next =>
    rw [edit.of_empty replaces empty]
    exact .inl ⟨print_of_empty empty, rfl⟩
  | inline more sameLine notItem notEntry valueRead =>
    have more := ne_nil_of_shorter valueRead.length_lt
    have slot := (Cursor.mayOpen_of_blankOrEnd closed more).2
    exact .inr ⟨valueRead.begins replaces edit (.inr slot), more⟩
  | nested more newLine inside valueRead =>
    have more := ne_nil_of_shorter valueRead.length_lt
    have slot := (Cursor.mayOpen_of_blankOrEnd closed more).2
    exact .inr ⟨valueRead.begins replaces edit (.inr slot), more⟩
  | sequence more newLine level opens itemsRead =>
    obtain ⟨id', is', rfl, items⟩ := edit.of_sequence
    exact .inr ⟨itemsRead.begins items, ne_nil_of_shorter itemsRead.length_lt⟩

theorem ReadsItemValue.begins {column : Nat} {cur last : Cursor} {v v' : Value}
    (replaces : Replaces old new) (h : ReadsItemValue column cur v last)
    (edit : SlotEdits old new behind v v') (closed : blankOrEnd cur.rest = true) :
    (v'.print = [] ∧ last = cur) ∨ cur.token.Begins v'.print ∧ cur.token.here.rest ≠ [] := by
  cases h with
  | absent empty next =>
    rw [edit.of_empty replaces empty]
    exact .inl ⟨print_of_empty empty, rfl⟩
  | value more inside valueRead =>
    have more := ne_nil_of_shorter valueRead.length_lt
    have slot := (Cursor.mayOpen_of_blankOrEnd closed more).2
    exact .inr ⟨valueRead.begins replaces edit (.inr slot), more⟩

/-- The character behind a colon or a dash stays the same. -/
theorem head_of_begins {cur last : Cursor} {t rest : Text} (closed : blankOrEnd cur.rest = true)
    (head : rest.head? = last.rest.head?)
    (h : (t = [] ∧ last = cur) ∨ cur.token.Begins t ∧ cur.token.here.rest ≠ []) :
    (t ++ rest).head? = cur.rest.head? := by
  rcases h with ⟨rfl, rfl⟩ | ⟨begins, more⟩
  · exact head
  · rw [← begins.head (Cursor.mayOpen_of_blankOrEnd closed more).1]
    obtain ⟨significant, rfl, nonempty, -⟩ := begins
    exact (head_append_left (List.append_ne_nil_of_right_ne_nil _ nonempty) _).symm

/-- What is ahead of a token, as `Ahead` needs it. -/
theorem Cursor.ahead_of_word {cur mid : Cursor} {lead word rest' : Text} {here : Cursor}
    (found : cur.token = ⟨lead, here⟩) (taken : here.Takes word mid)
    (solid : ∃ c ∈ word, isWhiteSpace c = false) (closed : blankOrEnd mid.rest = true)
    (closed' : blankOrEnd rest' = true) :
    Ahead cur.commentMayOpen cur.rest (lead ++ (word ++ rest')) := by
  have whole : cur.rest = lead ++ (word ++ mid.rest) := by
    rw [(cur.takes_of_token found).rest_eq, taken.rest_eq]
  have token : trivia cur.commentMayOpen false (lead ++ (word ++ mid.rest)) =
      (lead, word ++ mid.rest) := by
    rw [← whole, ← taken.rest_eq]
    exact Prod.ext (congrArg Token.lead found) (congrArg (·.here.rest) found)
  rw [whole]
  exact .word token solid closed closed'

/-- A key is followed by a blank. -/
theorem blankOrEnd_of_readKey {tok : Token} {key : Scalar} {gap : Text} {last : Cursor}
    (h : readKey tok = .ok ((key, gap), last)) : blankOrEnd last.rest = true := by
  obtain ⟨-, rest, scanned, -, rfl⟩ := readKey_eq_ok.mp h
  exact (scanKey_eq_some.mp scanned).2.2.2.2

theorem Cursor.Takes.head {cur last : Cursor} {t : Text} (h : cur.Takes t last) (nonempty : t ≠ [])
    (u : Text) : (t ++ u).head? = cur.rest.head? := by
  rw [h.rest_eq]
  exact head_append nonempty u last.rest

/-- Edited entries begin with the same character, that of the first lead or key. -/
theorem ReadsEntries.head_eq {column : Nat} {cur last : Cursor} {es es' : List Entry}
    (h : ReadsEntries column cur es last) (edit : EntriesEdits old new behind es es')
    (rest : Text) :
    (entriesPrint es' ++ rest).head? = cur.rest.head? := by
  obtain ⟨id, lead, here, key, gap, value, afterColon, mid, others, rfl, found, keyRead, -⟩ :=
    h.first
  obtain ⟨taken, -, keyLead, unmarked⟩ := readKey_takes keyRead
  cases edit with
  | cons edit others =>
    rw [entriesPrint_cons, Entry.print_mk unmarked keyLead, List.append_assoc, List.append_assoc]
    exact ((cur.takes_of_token found).trans taken).head (by simp) _

/-- Edited items begin with the same character, that of the first lead or a dash. -/
theorem ReadsItems.head_eq {column : Nat} {cur last : Cursor} {is is' : List Item}
    (h : ReadsItems column cur is last) (edit : ItemsEdits old new behind is is') (rest : Text) :
    (itemsPrint is' ++ rest).head? = cur.rest.head? := by
  obtain ⟨id, lead, here, dashRest, value, mid, others, rfl, found, dash, -⟩ := h.first
  cases edit with
  | cons edit others =>
    rw [itemsPrint_cons, Item.print_dash, List.append_assoc, List.append_assoc]
    exact ((cur.takes_of_token found).trans (.past dash)).head (by simp) _

/-- The text from an entry on looks alike after the edit. -/
theorem ReadsEntries.ahead {column : Nat} {cur last : Cursor} {es es' : List Entry} {rest : Text}
    (replaces : Replaces old new) (h : ReadsEntries column cur es last)
    (edit : EntriesEdits old new behind es es') (head : rest.head? = last.rest.head?) :
    Ahead cur.commentMayOpen cur.rest (entriesPrint es' ++ rest) := by
  obtain ⟨id, lead, here, key, gap, value, afterColon, mid, others, rfl, found, keyRead, valueRead,
    othersRead⟩ := h.first
  obtain ⟨taken, -, keyLead, unmarked⟩ := readKey_takes keyRead
  have closed := blankOrEnd_of_readKey keyRead
  cases edit with
  | @cons _ _ _ _ _ _ _ value' _ _ others' edit othersEdit =>
    have othersHead : (entriesPrint others' ++ rest).head? = mid.rest.head? := by
      rcases othersRead with ⟨rfl, rfl⟩ | ⟨-, othersRead⟩
      · cases othersEdit
        exact head
      · exact othersRead.head_eq othersEdit rest
    have closed' : blankOrEnd (value'.print ++ (entriesPrint others' ++ rest)) = true := by
      rw [blankOrEnd_of_head
        (head_of_begins closed othersHead (valueRead.begins replaces edit closed))]
      exact closed
    have ahead := Cursor.ahead_of_word found taken ⟨':', by simp, by decide⟩ closed closed'
    rw [entriesPrint_cons, Entry.print_mk unmarked keyLead]
    simpa [commaText] using ahead

/-- The text from an item on looks alike after the edit. -/
theorem ReadsItems.ahead {column : Nat} {cur last : Cursor} {is is' : List Item} {rest : Text}
    (replaces : Replaces old new) (h : ReadsItems column cur is last)
    (edit : ItemsEdits old new behind is is') (head : rest.head? = last.rest.head?) :
    Ahead cur.commentMayOpen cur.rest (itemsPrint is' ++ rest) := by
  obtain ⟨id, lead, here, dashRest, value, mid, others, rfl, found, dash, closed, valueRead,
    othersRead⟩ := h.first
  cases edit with
  | @cons _ _ _ _ _ _ value' _ _ others' edit othersEdit =>
    have othersHead : (itemsPrint others' ++ rest).head? = mid.rest.head? := by
      rcases othersRead with ⟨rfl, rfl⟩ | ⟨-, othersRead⟩
      · cases othersEdit
        exact head
      · exact othersRead.head_eq othersEdit rest
    have closed' : blankOrEnd (value'.print ++ (itemsPrint others' ++ rest)) = true := by
      have valueHead := head_of_begins closed othersHead (valueRead.begins replaces edit closed)
      rw [blankOrEnd_of_head valueHead]
      exact closed
    have taken : here.Takes ['-'] (here.past ['-'] dashRest) := .past dash
    have ahead := Cursor.ahead_of_word found taken ⟨'-', by simp, by decide⟩ closed closed'
    rw [itemsPrint_cons, Item.print_dash]
    simpa using ahead

end ConfigTree.Yaml
