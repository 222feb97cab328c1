import ConfigTree.Proofs.Yaml.Places
import ConfigTree.Proofs.Yaml.Rewriting

/-!
# Nesting follows indentation

A block collection stands at one column, that of all its keys or dashes, and what it holds on later
lines stands further in. Columns are those of the text: they are counted from the text in front of a
node.
-/

namespace ConfigTree.Yaml

/-- The text in front of the first significant character of a value. -/
def Value.lead : Value → Text
  | .scalar s => s.lead
  | .mapping ⟨_, .flow opening _, _⟩ => opening
  | .sequence ⟨_, .flow opening _, _⟩ => opening
  | .mapping ⟨_, .block, es⟩ => (es.head?.map Entry.lead).getD []
  | .sequence ⟨_, .block, is⟩ => (is.head?.map Item.lead).getD []

/-- The column of a value behind `before`, in bytes. -/
def Value.column (before : Text) (v : Value) : Nat := columnAfter 0 (before ++ v.lead)

def Value.isBlockSequence : Value → Bool
  | .sequence ⟨_, .block, _⟩ => true
  | _ => false

def Value.isBlockCollection : Value → Bool
  | .mapping ⟨_, .block, _⟩ => true
  | .sequence ⟨_, .block, _⟩ => true
  | _ => false

/-- The key of an entry stands at the column of its mapping. A value on a later line stands further
in, or is a block sequence at the same column. -/
structure Entry.Indented (column : Nat) (before : Text) (e : Entry) : Prop where
  key : columnAfter 0 (before ++ e.lead) = column
  value : '\n' ∈ e.value.lead →
    column < e.value.column (before ++ entryOpening e.lead e.key e.gap) ∨
      e.value.isBlockSequence = true ∧
        e.value.column (before ++ entryOpening e.lead e.key e.gap) = column

/-- The dash of an item stands at the column of its sequence. A value on a later line stands further
in, and so does a block collection on any line. -/
structure Item.Indented (column : Nat) (before : Text) (i : Item) : Prop where
  dash : columnAfter 0 (before ++ i.lead) = column
  value : '\n' ∈ i.value.lead ∨ i.value.isBlockCollection = true →
    column < i.value.column (before ++ itemOpening i.lead i.dash)

def entriesIndented (column : Nat) (before : Text) : List Entry → Prop
  | [] => True
  | e :: es => e.Indented column before ∧ entriesIndented column (before ++ e.print) es

def itemsIndented (column : Nat) (before : Text) : List Item → Prop
  | [] => True
  | i :: is => i.Indented column before ∧ itemsIndented column (before ++ i.print) is

/-- A block collection behind `before` has a column. -/
def Node.Indented (before : Text) : Node → Prop
  | .mapping ⟨_, .block, es⟩ => ∃ column, entriesIndented column before es
  | .sequence ⟨_, .block, is⟩ => ∃ column, itemsIndented column before is
  | _ => True

theorem lead_of_readScalar {inFlow : Bool} {cur last : Cursor} {s : Scalar}
    (h : readScalar inFlow cur.token = .ok (s.unnumbered, last)) : s.lead = cur.token.lead :=
  (readScalar_takes h).2.2.1

theorem ReadsFlowValue.lead_eq {cur last : Cursor} {v : Value} (h : ReadsFlowValue cur v last) :
    v.lead = cur.token.lead := by
  cases h with
  | sequence token => exact (congrArg Token.lead token).symm
  | mapping token => exact (congrArg Token.lead token).symm
  | scalar _ _ read => exact lead_of_readScalar read

theorem ReadsPlainValue.lead_eq {floor : Nat} {cur last : Cursor} {v : Value}
    (h : ReadsPlainValue floor cur v last) : v.lead = cur.token.lead := by
  cases h with
  | flow _ valueRead => exact valueRead.lead_eq
  | block indicator opening read => exact (readBlockScalar_takes indicator opening read).2.2.1
  | scalar _ read => exact lead_of_readScalar read

theorem ReadsEntries.mapping_lead {column : Nat} {cur last : Cursor} {id : NodeId} {es : List Entry}
    (h : ReadsEntries column cur es last) :
    (Value.mapping ⟨id, .block, es⟩).lead = cur.token.lead := by
  obtain ⟨_, lead, here, _, _, _, _, _, _, rfl, token, -⟩ := h.first
  exact (congrArg Token.lead token).symm

theorem ReadsItems.sequence_lead {column : Nat} {cur last : Cursor} {id : NodeId} {is : List Item}
    (h : ReadsItems column cur is last) :
    (Value.sequence ⟨id, .block, is⟩).lead = cur.token.lead := by
  obtain ⟨_, lead, here, _, _, _, _, rfl, token, -⟩ := h.first
  exact (congrArg Token.lead token).symm

theorem ReadsValue.lead_eq {floor : Nat} {cur last : Cursor} {v : Value}
    (h : ReadsValue floor cur v last) : v.lead = cur.token.lead := by
  cases h with
  | sequence _ itemsRead => exact itemsRead.sequence_lead
  | mapping _ _ entriesRead => exact entriesRead.mapping_lead
  | plain _ _ valueRead => exact valueRead.lead_eq

variable {text before : Text} {cur last : Cursor}

theorem Cursor.Takes.column_eq (taken : (Cursor.start text).Takes before cur) :
    cur.column = columnAfter 0 before :=
  congrArg Cursor.column taken.2

theorem column_of_token {here : Cursor} {lead : Text}
    (taken : (Cursor.start text).Takes before cur) (token : cur.token = ⟨lead, here⟩) :
    columnAfter 0 (before ++ lead) = cur.token.column := by
  rw [token]
  exact (taken.trans (cur.takes_of_token token)).column_eq.symm

/-- A value that was read stands at the column of its token. -/
theorem Value.column_eq {v : Value} (taken : (Cursor.start text).Takes before cur)
    (lead : v.lead = cur.token.lead) : v.column before = cur.token.column := by
  rw [Value.column, lead]
  exact column_of_token taken rfl

theorem onNewLine_of_lead {v : Value} (lead : v.lead = cur.token.lead) (newLine : '\n' ∈ v.lead) :
    cur.token.onNewLine = true := by
  rw [lead] at newLine
  exact List.contains_iff_mem.mpr newLine

theorem lead_of_empty {s : Scalar} (empty : s.unnumbered = .fresh [] .plain []) : s.lead = [] :=
  congrArg Scalar.lead empty

theorem ReadsEntryValue.indented {column : Nat} {v : Value} (h : ReadsEntryValue column cur v last)
    (taken : (Cursor.start text).Takes before cur) (newLine : '\n' ∈ v.lead) :
    column < v.column before ∨ v.isBlockSequence = true ∧ v.column before = column := by
  cases h with
  | absent empty _ =>
    rw [Value.lead, lead_of_empty empty] at newLine
    contradiction
  | inline _ sameLine _ _ valueRead =>
    rw [onNewLine_of_lead valueRead.lead_eq newLine] at sameLine
    contradiction
  | nested _ _ inside valueRead =>
    rw [Value.column_eq taken valueRead.lead_eq]
    exact .inl inside
  | sequence _ _ level _ itemsRead =>
    rw [Value.column_eq taken itemsRead.sequence_lead]
    exact .inr ⟨rfl, level⟩

/-- What stands behind a dash on the same line stands further in than the dash. -/
theorem ReadsItemValue.indented {column : Nat} {v : Value} (h : ReadsItemValue column cur v last)
    (taken : (Cursor.start text).Takes before cur) (behindDash : column < cur.column)
    (counts : '\n' ∈ v.lead ∨ v.isBlockCollection = true) : column < v.column before := by
  cases h with
  | absent empty _ =>
    rw [Value.lead, lead_of_empty empty] at counts
    rcases counts with newLine | block <;> contradiction
  | value _ inside valueRead =>
    rw [Value.column_eq taken valueRead.lead_eq]
    cases newLine : cur.token.onNewLine with
    | true => exact inside newLine
    | false => exact Nat.lt_of_lt_of_le behindDash (Cursor.column_le_token newLine)

theorem entry_indented {column : Nat} {here mid : Cursor} {lead gap : Text} {id : NodeId}
    {key : Scalar} {value : Value} (token : cur.token = ⟨lead, here⟩)
    (keyRead : readKey ⟨lead, here⟩ = .ok ((key.unnumbered, gap), mid))
    (valueRead : ReadsEntryValue column mid value last)
    (taken : (Cursor.start text).Takes before cur) (level : cur.token.column = column) :
    (Entry.mk id lead key gap value none).Indented column before := by
  obtain ⟨keyTaken, -, keyLead, unmarked⟩ := readKey_takes keyRead
  refine ⟨(column_of_token taken token).trans level, ?_⟩
  exact valueRead.indented
    (takes_entryOpening taken (cur.takes_of_token token) keyLead unmarked keyTaken)

theorem item_indented {column : Nat} {here : Cursor} {lead rest : Text} {id : NodeId}
    {value : Value} (token : cur.token = ⟨lead, here⟩) (dash : here.rest = '-' :: rest)
    (valueRead : ReadsItemValue column (here.past ['-'] rest) value last)
    (taken : (Cursor.start text).Takes before cur) (level : cur.token.column = column) :
    (Item.mk id lead true value none).Indented column before := by
  refine ⟨(column_of_token taken token).trans level, ?_⟩
  have behindDash : column < (here.past ['-'] rest).column := by
    rw [token] at level
    exact level ▸ Nat.lt_succ_self _
  exact valueRead.indented (takes_itemOpening taken (cur.takes_of_token token) dash) behindDash

/-- Every further key stands at the column of the first. -/
theorem ReadsEntries.indented {column : Nat} {es : List Entry} {before : Text} {cur last : Cursor} :
    ReadsEntries column cur es last → (Cursor.start text).Takes before cur →
      cur.token.column = column → entriesIndented column before es
  | .last token keyRead valueRead _, taken, level =>
    ⟨entry_indented token keyRead valueRead taken level, trivial⟩
  | .more token keyRead valueRead next others, taken, level => by
    obtain ⟨-, -, -, nextLevel, -⟩ := nextEntry_eq_some.mp next
    obtain ⟨print, -⟩ :=
      entry_readAtPlace token keyRead valueRead.takes taken valueRead.readAtPlace
    exact ⟨entry_indented token keyRead valueRead taken level,
      others.indented (taken.trans print) nextLevel⟩

/-- Every further dash stands at the column of the first. -/
theorem ReadsItems.indented {column : Nat} {is : List Item} {before : Text} {cur last : Cursor} :
    ReadsItems column cur is last → (Cursor.start text).Takes before cur →
      cur.token.column = column → itemsIndented column before is
  | .last token dash _ valueRead _, taken, level =>
    ⟨item_indented token dash valueRead taken level, trivial⟩
  | .more token dash _ valueRead next others, taken, level => by
    obtain ⟨-, -, nextLevel, -⟩ := nextItem_eq_some.mp next
    obtain ⟨print, -⟩ := item_readAtPlace token dash valueRead.takes taken valueRead.readAtPlace
    exact ⟨item_indented token dash valueRead taken level,
      others.indented (taken.trans print) nextLevel⟩

theorem ReadAtPlace.indented {p : Text × Node} (h : ReadAtPlace (.start text) p) :
    p.2.Indented p.1 := by
  obtain ⟨before, n⟩ := p
  obtain ⟨cur, last, taken, -, read⟩ := h
  match n, read with
  | .mapping ⟨_, .block, _⟩, ⟨_, entriesRead⟩ => exact ⟨_, entriesRead.indented taken rfl⟩
  | .sequence ⟨_, .block, _⟩, ⟨_, itemsRead⟩ => exact ⟨_, itemsRead.indented taken rfl⟩
  | .mapping ⟨_, .flow _ _, _⟩, _ => trivial
  | .sequence ⟨_, .flow _ _, _⟩, _ => trivial
  | .document _, _ => trivial
  | .entry _, _ => trivial
  | .item _, _ => trivial
  | .scalar _, _ => trivial

/-- In a stream that was read every node has a place in the text, and block collections are laid out
by columns there. -/
theorem indented_of_parse {text : Text} {s : Stream} (parsed : parse text = .ok s) :
    s.placed.map Prod.snd = s.nodes ∧
      ∀ p ∈ s.placed, p.1 ++ p.2.print <+: text ∧ p.2.Indented p.1 := by
  refine ⟨s.map_placed, ?_⟩
  intro p inside
  have atPlace := readAtPlace_of_parse parsed p inside
  exact ⟨atPlace.isPrefix, atPlace.indented⟩

/-- Sequences at the column of their key and further in, a mapping behind two dashes, characters of
more than one byte in front of a dash, and both kinds of line ends. -/
def nestedText : Text :=
  ("a:\r\n- - b: 1\n    'é': # x\n     2\n  - 'é'\nc:\n  - d:\n    - 3\n    -\n     [4,\n5]\n" ++
    "--- - e:\n      f: 6\n").toList

theorem indented_of_parse_nestedText :
    ∃ s, parse nestedText = .ok s ∧ s.nodes.length = 43 ∧ s.placed.map Prod.snd = s.nodes ∧
      ∀ p ∈ s.placed, p.1 ++ p.2.print <+: nestedText ∧ p.2.Indented p.1 := by
  obtain ⟨s, parsed, size⟩ : ∃ s, parse nestedText = .ok s ∧ s.nodes.length = 43 :=
    exists_parse (by decide +kernel)
  exact ⟨s, parsed, size, indented_of_parse parsed⟩

end ConfigTree.Yaml
