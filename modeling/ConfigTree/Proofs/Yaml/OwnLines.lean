import ConfigTree.Proofs.Yaml.Indentation
import ConfigTree.Proofs.Yaml.Trivia
import ConfigTree.Text.Offset

/-!
# Entries on lines of their own

A further entry of a block mapping begins on a later line than the one on which the entry in front
of it ends. A block sequence goes by columns alone: a further dash can also stand on the line on
which the item in front ends, if that line ends left of the column of the sequence. This takes a
quoted scalar or a flow collection that spans lines, since everything else in an item stands further
in than its dash.
-/

namespace ConfigTree.Yaml

/-- A quoted scalar or a flow collection with a line feed between its quotes or brackets. -/
def Node.SpansLines : Node → Prop
  | .scalar s => (s.style = .singleQuoted ∨ s.style = .doubleQuoted) ∧ '\n' ∈ s.text
  | .mapping ⟨_, .flow _ closing, es⟩ => '\n' ∈ entriesPrint es ++ closing
  | .sequence ⟨_, .flow _ closing, is⟩ => '\n' ∈ itemsPrint is ++ closing
  | _ => False

theorem notMem_scanPlain (inFlow : Bool) (t : Text) : '\n' ∉ (scanPlain inFlow t).1 := by
  intro inside
  have kept := (Text.trimEndWhile_isPrefix isInlineBlank (plainRun inFlow false t)).subset inside
  exact (notMem_plainRun inFlow false t '\n' kept).1 rfl

theorem notMem_written {inFlow : Bool} {t rest : Text} {s : Scalar}
    (scanned : scanScalar inFlow t = some ⟨s.style, s.text, rest⟩)
    (flat : ¬ (Node.scalar s).SpansLines) : '\n' ∉ s.written := by
  unfold Scalar.written
  cases style : s.style with
  | plain =>
    rw [style] at scanned
    obtain ⟨-, plain⟩ := scanScalar_eq_plain.mp scanned
    have noLineFeed := notMem_scanPlain inFlow t
    rwa [plain] at noLineFeed
  | singleQuoted =>
    have noLineFeed : '\n' ∉ s.text := fun inside => flat ⟨.inl style, inside⟩
    simpa using noLineFeed
  | doubleQuoted =>
    have noLineFeed : '\n' ∉ s.text := fun inside => flat ⟨.inr style, inside⟩
    simpa using noLineFeed
  | literal | folded =>
    rw [style] at scanned
    unfold scanScalar at scanned
    split at scanned <;> simp at scanned

theorem notMem_of_readScalar {inFlow : Bool} {tok : Token} {s : Scalar} {last : Cursor}
    (h : readScalar inFlow tok = .ok (s.unnumbered, last))
    (flat : ¬ (Node.scalar s).SpansLines) : '\n' ∉ s.written := by
  obtain ⟨-, style, text, rest, scanned, -, fresh, -⟩ := readScalar_eq_ok.mp h
  have sameStyle : style = s.style := (congrArg Scalar.style fresh).symm
  have sameText : text = s.text := (congrArg Scalar.text fresh).symm
  rw [sameStyle, sameText] at scanned
  exact notMem_written scanned flat

/-- A key that spans no lines leaves the rest of its entry on its line. -/
theorem notMem_of_readKey {tok : Token} {key : Scalar} {gap : Text} {last : Cursor}
    (h : readKey tok = .ok ((key.unnumbered, gap), last))
    (flat : ¬ (Node.scalar key).SpansLines) : '\n' ∉ key.written ++ gap ++ [':'] := by
  obtain ⟨-, rest, found, -, -⟩ := readKey_eq_ok.mp h
  obtain ⟨-, scanned, -, inline, -⟩ := scanKey_eq_some.mp found
  have noLineFeed := notMem_written (s := key) scanned flat
  have notInGap : '\n' ∉ gap := by
    intro inside
    have blank := inline '\n' inside
    contradiction
  simp [noLineFeed, notInGap]

/-- The document goes on on the line of the cursor. -/
structure Cursor.LineGoesOn (cur : Cursor) : Prop where
  more : cur.token.endsDocument = false
  sameLine : cur.token.onNewLine = false

variable {cur here mid last : Cursor}

theorem Cursor.Takes.column_le {t : Text} (h : cur.Takes t last) (noLineFeed : '\n' ∉ t) :
    cur.column ≤ last.column := by
  rw [h.2]
  exact le_columnAfter noLineFeed cur.column

/-- Behind brackets with no line feed between them their line goes on. -/
theorem Cursor.Takes.column_le_of_brackets {opening closing : Char} {content margin : Text}
    (h : cur.Takes ([opening] ++ (content ++ (margin ++ [closing]))) last)
    (noLineFeed : '\n' ∉ content ++ margin) (opens : '\n' ≠ opening) (closes : '\n' ≠ closing) :
    cur.column ≤ last.column := by
  rw [← List.append_assoc content] at h
  refine h.column_le ?_
  simp only [List.mem_append, List.mem_singleton, not_or] at noLineFeed ⊢
  exact ⟨opens, noLineFeed, closes⟩

/-- Behind a literal or folded scalar its line ends. -/
theorem not_lineGoesOn_of_readBlockScalar {style : ScalarStyle} {floor : Nat} {tok : Token}
    {rest : Text} {s : Scalar} (read : readBlockScalar style floor tok rest = (s, last)) :
    ¬ last.LineGoesOn := by
  intro goesOn
  have left : last.rest = (scanBlockScalar floor rest).2 := by
    rw [readBlockScalar_eq] at read
    rw [← (Prod.mk.inj read).2, Cursor.rest_past]
  have whole : (scanBlockScalar floor rest).1 ++ last.rest = rest := by
    rw [left, scanBlockScalar_append]
  have cut : scanBlockScalar floor ((scanBlockScalar floor rest).1 ++ last.rest) =
      ((scanBlockScalar floor rest).1, last.rest) := by
    rw [whole, left]
  rcases (scanBlockScalar_eq_iff.mp cut).2 with ends | ⟨t, lineFeed, -⟩
  · have atEnd : last.token.atEnd = true := by simp [Token.atEnd, Cursor.token, ends, trivia]
    have more := goesOn.more
    rw [Token.endsDocument, atEnd] at more
    contradiction
  · have newLine : last.token.onNewLine = true := by
      simp [Token.onNewLine, Cursor.token, lineFeed, trivia, isBlank]
    rw [goesOn.sameLine] at newLine
    contradiction

theorem ReadsFlowValue.column_le {v : Value} (h : ReadsFlowValue cur v last)
    (flat : ∀ n ∈ v.nodes, ¬ n.SpansLines) : cur.token.column ≤ last.column := by
  cases h with
  | sequence token opening inner | mapping token opening inner =>
    have taken := (Cursor.Takes.past opening).trans inner.takes
    rw [token]
    exact taken.column_le_of_brackets (flat _ List.mem_cons_self) (by decide) (by decide)
  | scalar _ _ read =>
    obtain ⟨taken, -⟩ := readScalar_takes read
    exact taken.column_le (notMem_of_readScalar read (flat _ List.mem_cons_self))

theorem ReadsPlainValue.column_le {floor : Nat} {v : Value} (h : ReadsPlainValue floor cur v last)
    (flat : ∀ n ∈ v.nodes, ¬ n.SpansLines) (goesOn : last.LineGoesOn) :
    cur.token.column ≤ last.column := by
  cases h with
  | flow _ valueRead => exact valueRead.column_le flat
  | block _ _ read => exact absurd goesOn (not_lineGoesOn_of_readBlockScalar read)
  | scalar _ read =>
    obtain ⟨taken, -⟩ := readScalar_takes read
    exact taken.column_le (notMem_of_readScalar read (flat _ List.mem_cons_self))

/-- What follows a dash on its line stands right of it. -/
theorem column_lt_dash {column : Nat} {lead rest : Text} (token : cur.token = ⟨lead, here⟩)
    (level : cur.token.column = column) : column < (here.past ['-'] rest).column := by
  rw [token] at level
  exact level ▸ Nat.lt_succ_self _

theorem column_lt_token {column : Nat} (behind : column < cur.column)
    (inside : cur.token.onNewLine = true → column < cur.token.column) :
    column < cur.token.column := by
  cases newLine : cur.token.onNewLine with
  | true => exact inside newLine
  | false => exact Nat.lt_of_lt_of_le behind (Cursor.column_le_token newLine)

mutual

/-- A value that spans no lines but by nesting ends right of where it begins, unless its last line
ends with it. -/
theorem ReadsValue.column_le {floor : Nat} {cur last : Cursor} {v : Value} :
    ReadsValue floor cur v last → (∀ n ∈ v.nodes, ¬ n.SpansLines) → last.LineGoesOn →
      cur.token.column ≤ last.column
  | .sequence _ itemsRead, flat, goesOn =>
    itemsRead.column_le (fun n inside => flat n (List.mem_cons_of_mem _ inside)) rfl goesOn
  | .mapping _ _ entriesRead, flat, goesOn =>
    entriesRead.column_le (fun n inside => flat n (List.mem_cons_of_mem _ inside)) rfl goesOn
  | .plain _ _ valueRead, flat, goesOn => valueRead.column_le flat goesOn

theorem ReadsEntries.column_le {column : Nat} {cur last : Cursor} {es : List Entry} :
    ReadsEntries column cur es last → (∀ n ∈ entriesNodes es, ¬ n.SpansLines) →
      cur.token.column = column → last.LineGoesOn → column ≤ last.column
  | .last token keyRead valueRead _, flat, level, goesOn => by
    obtain ⟨keyTaken, -⟩ := readKey_takes keyRead
    rw [entriesNodes, Entry.nodes, List.forall_mem_append, List.forall_mem_cons,
      List.forall_mem_cons] at flat
    obtain ⟨⟨-, keyFlat, valueFlat⟩, -⟩ := flat
    have behindKey := keyTaken.column_le (notMem_of_readKey keyRead keyFlat)
    rw [token] at level
    exact valueRead.column_le valueFlat (level ▸ behindKey) goesOn
  | .more _ _ _ next others, flat, _, goesOn => by
    obtain ⟨-, -, -, nextLevel, -⟩ := nextEntry_eq_some.mp next
    have othersFlat := fun n inside => flat n (List.mem_append_right _ inside)
    exact others.column_le othersFlat nextLevel goesOn

theorem ReadsEntryValue.column_le {column : Nat} {cur last : Cursor} {v : Value} :
    ReadsEntryValue column cur v last → (∀ n ∈ v.nodes, ¬ n.SpansLines) → column ≤ cur.column →
      last.LineGoesOn → column ≤ last.column
  | .absent _ _, _, behindKey, _ => behindKey
  | .inline _ sameLine _ _ valueRead, flat, behindKey, goesOn =>
    Nat.le_trans behindKey
      (Nat.le_trans (Cursor.column_le_token sameLine) (valueRead.column_le flat goesOn))
  | .nested _ _ inside valueRead, flat, _, goesOn =>
    Nat.le_trans (Nat.le_of_lt inside) (valueRead.column_le flat goesOn)
  | .sequence _ _ level _ itemsRead, flat, _, goesOn =>
    itemsRead.column_le (fun n inside => flat n (List.mem_cons_of_mem _ inside)) level goesOn

theorem ReadsItems.column_le {column : Nat} {cur last : Cursor} {is : List Item} :
    ReadsItems column cur is last → (∀ n ∈ itemsNodes is, ¬ n.SpansLines) →
      cur.token.column = column → last.LineGoesOn → column ≤ last.column
  | .last token dash _ valueRead _, flat, level, goesOn => by
    have valueFlat := fun n inside =>
      flat n (List.mem_append_left _ (List.mem_cons_of_mem _ inside))
    exact Nat.le_of_lt (valueRead.column_lt valueFlat (column_lt_dash token level) goesOn)
  | .more _ _ _ _ next others, flat, _, goesOn => by
    obtain ⟨-, -, nextLevel, -⟩ := nextItem_eq_some.mp next
    have othersFlat := fun n inside => flat n (List.mem_append_right _ inside)
    exact others.column_le othersFlat nextLevel goesOn

theorem ReadsItemValue.column_lt {column : Nat} {cur last : Cursor} {v : Value} :
    ReadsItemValue column cur v last → (∀ n ∈ v.nodes, ¬ n.SpansLines) → column < cur.column →
      last.LineGoesOn → column < last.column
  | .absent _ _, _, behindDash, _ => behindDash
  | .value _ inside valueRead, flat, behindDash, goesOn =>
    Nat.lt_of_lt_of_le (column_lt_token behindDash inside) (valueRead.column_le flat goesOn)

end

/-! ## Entries and items -/

/-- Behind trivia that span no lines the text ends, or they are blanks alone: a comment goes on to
the end of its line. -/
theorem blanks_of_trivia {mayOpen inComment : Bool} {t : Text}
    (more : (trivia mayOpen inComment t).2 ≠ [])
    (noLineFeed : '\n' ∉ (trivia mayOpen inComment t).1) :
    inComment = false ∧ ∀ c ∈ (trivia mayOpen inComment t).1, isBlank c = true := by
  fun_induction trivia mayOpen inComment t with
  | case1 => contradiction
  | case2 mayOpen c cs taken rest found ih =>
    rw [found] at ih
    rw [List.mem_cons, not_or] at noLineFeed
    have closed := (ih more noLineFeed.2).1
    simp [Ne.symm noLineFeed.1] at closed
  | case3 mayOpen inComment c cs notComment blank taken rest found ih =>
    rw [found] at ih
    have blanks := (ih more (List.not_mem_of_not_mem_cons noLineFeed)).2
    exact ⟨by simpa using notComment, List.forall_mem_cons.mpr ⟨blank, blanks⟩⟩
  | case4 mayOpen inComment c cs notComment _ _ taken rest found ih =>
    rw [found] at ih
    have closed := (ih more (List.not_mem_of_not_mem_cons noLineFeed)).1
    contradiction
  | case5 mayOpen inComment c cs notComment => exact ⟨by simpa using notComment, by simp⟩

/-- The item in front spans lines, and its last line with the blanks behind it ends at
the column. -/
def Item.LeadsUpTo (column : Nat) (i j : Item) : Prop :=
  '\n' ∈ i.value.print ∧ columnAfter 0 i.value.print + Text.size j.lead = column

/-- An item begins on a later line than the one in front ends, unless that one leads up to the
column of the sequence. Then there are but blanks between the two, and in the one in front a quoted
scalar or a flow collection spans lines. -/
structure Item.FollowedBy (column : Nat) (i j : Item) : Prop where
  newLine : '\n' ∈ j.lead ↔ ¬ i.LeadsUpTo column j
  blanks : '\n' ∉ j.lead → ∀ c ∈ j.lead, isBlank c = true
  spans : '\n' ∉ j.lead → ∃ n ∈ i.value.nodes, n.SpansLines

theorem columnAfter_le_add_size (column : Nat) (t : Text) :
    columnAfter column t ≤ column + Text.size t := by
  induction t generalizing column with
  | nil => exact Nat.le_refl _
  | cons c t ih =>
    rw [columnAfter, Text.size_cons]
    split
    · have := ih 0
      omega
    · have := ih (column + c.utf8Size)
      omega

/-- The line feed itself counts for no column. -/
theorem columnAfter_lt_size {t : Text} (h : '\n' ∈ t) (column : Nat) :
    columnAfter column t < Text.size t := by
  induction t generalizing column with
  | nil => contradiction
  | cons c t ih =>
    rw [columnAfter, Text.size_cons]
    have position := c.utf8Size_pos
    by_cases lineFeed : c = '\n'
    · rw [if_pos lineFeed]
      have := columnAfter_le_add_size 0 t
      omega
    · have inside : '\n' ∈ t := (List.mem_cons.mp h).resolve_left (Ne.symm lineFeed)
      have := ih inside (if c = '\n' then 0 else column + c.utf8Size)
      omega

theorem columnAfter_of_takes {t : Text} (taken : cur.Takes t last) :
    last.column = columnAfter cur.column t :=
  congrArg Cursor.column taken.2

theorem ReadsItemValue.followedBy_next {column : Nat} {lead rest : Text} {id : NodeId}
    {value : Value} {j : Item}
    (valueRead : ReadsItemValue column (here.past ['-'] rest) value mid)
    (token : cur.token = ⟨lead, here⟩) (level : cur.token.column = column)
    (next : nextItem column mid = .ok (some mid.token)) (nextLead : j.lead = mid.token.lead) :
    (Item.mk id lead true value none).FollowedBy column j := by
  obtain ⟨-, more, nextLevel, opens⟩ := nextItem_eq_some.mp next
  have behindDash : column < (here.past ['-'] rest).column := column_lt_dash token level
  have ends := columnAfter_of_takes valueRead.takes
  have reaches : columnAfter mid.column j.lead = column := by
    rw [nextLead]
    exact nextLevel
  refine ⟨⟨?_, ?_⟩, ?_, ?_⟩
  · rintro newLine ⟨-, leadsUp⟩
    have short := columnAfter_lt_size newLine mid.column
    omega
  · intro apart
    apply Decidable.of_not_not
    intro sameLine
    apply apart
    rw [columnAfter_eq_add sameLine] at reaches
    have spans : '\n' ∈ value.print := by
      apply Decidable.of_not_not
      intro flat
      rw [columnAfter_eq_add flat] at ends
      omega
    rw [columnAfter_of_mem spans _ 0] at ends
    exact ⟨spans, by rw [← reaches, ends]; rfl⟩
  · intro sameLine
    rw [nextLead] at sameLine ⊢
    refine (blanks_of_trivia ?_ sameLine).2
    obtain ⟨dashRest, dash, -⟩ := opensItem_eq_true opens
    exact fun ends => List.cons_ne_nil _ _ (dash.symm.trans ends)
  · intro sameLine
    have notNewLine : mid.token.onNewLine = false := by
      simpa [Token.onNewLine, ← nextLead] using sameLine
    have goesOn : mid.LineGoesOn := ⟨more, notNewLine⟩
    apply Classical.byContradiction
    intro flat
    have right := valueRead.column_lt (fun n inside spans => flat ⟨n, inside, spans⟩) behindDash
      goesOn
    have := Cursor.column_le_token goesOn.sameLine
    omega

theorem ReadsItems.itemsFollowedBy {column : Nat} {cur last : Cursor} {is front behind : List Item}
    {i j : Item} :
    ReadsItems column cur is last → cur.token.column = column → is = front ++ i :: j :: behind →
      i.FollowedBy column j
  | .last _ _ _ _ _, _, split => by
    have short := congrArg List.length split
    simp at short
    omega
  | .more token _ _ valueRead next others, level, split => by
    cases front with
    | nil =>
      obtain ⟨rfl, rfl⟩ := List.cons.inj split
      obtain ⟨_, nextLead, _, _, _, _, _, same, nextToken, -⟩ := others.first
      refine valueRead.followedBy_next token level next ?_
      rw [(List.cons.inj same).1, nextToken]
    | cons _ front =>
      obtain ⟨-, -, nextLevel, -⟩ := nextItem_eq_some.mp next
      exact others.itemsFollowedBy nextLevel (List.cons.inj split).2

/-- Every further entry of a block mapping begins on a new line. -/
theorem ReadsEntries.newLine {column : Nat} {cur last : Cursor} {es : List Entry}
    (h : ReadsEntries column cur es last) : ∀ e ∈ es.tail, '\n' ∈ e.lead := by
  induction es generalizing cur with
  | nil => exact List.forall_mem_nil _
  | cons e es ih =>
    obtain ⟨_, _, _, _, _, _, _, mid, _, same, -, -, -, ends⟩ := h.first
    obtain ⟨-, rfl⟩ := List.cons.inj same
    rcases ends with ⟨rfl, -⟩ | ⟨next, others⟩
    · exact List.forall_mem_nil _
    · obtain ⟨-, -, newLine, -⟩ := nextEntry_eq_some.mp next
      have behind := ih others
      obtain ⟨_, lead, _, _, _, _, _, _, _, rfl, token, -⟩ := others.first
      refine List.forall_mem_cons.mpr ⟨?_, behind⟩
      rw [token] at newLine
      exact List.contains_iff_mem.mp newLine

/-- The further entries of a block collection behind `before` begin on lines of their own, but for
items to which the one in front leads up. -/
def Node.OwnLines (before : Text) : Node → Prop
  | .mapping ⟨_, .block, es⟩ => ∀ e ∈ es.tail, '\n' ∈ e.lead
  | .sequence ⟨id, .block, is⟩ =>
    ∀ front i j behind, is = front ++ i :: j :: behind →
      i.FollowedBy ((Value.sequence ⟨id, .block, is⟩).column before) j
  | _ => True

theorem ReadAtPlace.ownLines {text : Text} {p : Text × Node} (h : ReadAtPlace (.start text) p) :
    p.2.OwnLines p.1 := by
  obtain ⟨before, n⟩ := p
  obtain ⟨cur, last, taken, -, read⟩ := h
  match n, read with
  | .mapping ⟨_, .block, _⟩, ⟨_, entriesRead⟩ => exact entriesRead.newLine
  | .sequence ⟨id, .block, is⟩, ⟨_, itemsRead⟩ =>
    have lead : (Value.sequence ⟨id, .block, is⟩).lead = cur.token.lead := itemsRead.sequence_lead
    intro front i j behind split
    rw [Value.column_eq taken lead]
    exact itemsRead.itemsFollowedBy rfl split
  | .mapping ⟨_, .flow _ _, _⟩, _ => trivial
  | .sequence ⟨_, .flow _ _, _⟩, _ => trivial
  | .document _, _ => trivial
  | .entry _, _ => trivial
  | .item _, _ => trivial
  | .scalar _, _ => trivial

/-- In a stream that was read every further entry of a block mapping begins on a line of its own,
and so does every further item of a block sequence, unless the item in front leads up to its
column. -/
theorem ownLines_of_parse {text : Text} {s : Stream} (parsed : parse text = .ok s) :
    s.placed.map Prod.snd = s.nodes ∧ ∀ p ∈ s.placed, p.2.OwnLines p.1 :=
  ⟨s.map_placed, fun p inside => (readAtPlace_of_parse parsed p inside).ownLines⟩

/-- A sequence whose first item spans lines up to the second dash, and whose third item is
a mapping. -/
def sharedLineText : Text := "  - 'a\n' - b\n  - c: 1\n    d: 2\n".toList

/-- The second item begins on the line on which the first one ends. -/
theorem ownLines_of_parse_sharedLineText :
    ∃ s, parse sharedLineText = .ok s ∧ (s.nodes.filterMap Node.asItem).map Item.lead =
        ["  ".toList, " ".toList, "\n  ".toList] ∧
      s.placed.map Prod.snd = s.nodes ∧ ∀ p ∈ s.placed, p.2.OwnLines p.1 := by
  obtain ⟨s, parsed, leads⟩ : ∃ s, parse sharedLineText = .ok s ∧
      (s.nodes.filterMap Node.asItem).map Item.lead =
        ["  ".toList, " ".toList, "\n  ".toList] :=
    exists_parse (by decide +kernel)
  exact ⟨s, parsed, leads, ownLines_of_parse parsed⟩

end ConfigTree.Yaml
