import ConfigTree.Proofs.Yaml.Adequacy

/-!
# Readers never move backwards

Every reader gives a cursor: the one behind what it read, or the place at which it failed. Either
way the text leads there from the cursor at which the reader started. So every failure is at a place
in the text that was read, or at its end.
-/

namespace ConfigTree.Yaml

/-- Reading some text leads from the first cursor to the second. -/
def Cursor.Reaches (cur last : Cursor) : Prop := ∃ taken, cur.Takes taken last

namespace Cursor.Reaches

theorem refl (cur : Cursor) : cur.Reaches cur := ⟨[], .refl cur⟩

theorem trans {cur mid last : Cursor} (first : cur.Reaches mid) (second : mid.Reaches last) :
    cur.Reaches last := by
  obtain ⟨s, first⟩ := first
  obtain ⟨t, second⟩ := second
  exact ⟨s ++ t, first.trans second⟩

theorem token (cur : Cursor) : cur.Reaches cur.token.here := ⟨_, cur.takes_token⟩

theorem past {cur : Cursor} {taken rest : Text} (h : cur.rest = taken ++ rest) :
    cur.Reaches (cur.past taken rest) := ⟨taken, .past h⟩

theorem lineFeeds_le {cur last : Cursor} (h : cur.Reaches last) :
    last.rest.lineFeeds ≤ cur.rest.lineFeeds := by
  obtain ⟨taken, h⟩ := h
  rw [h.rest_eq, Text.lineFeeds, Text.lineFeeds, List.count_append]
  exact Nat.le_add_left _ _

end Cursor.Reaches

/-- The cursor in a result, that behind what was read or that of the failure, is reached from
`cur`. -/
def Forward {α : Type} (cur : Cursor) : Except Failure (α × Cursor) → Prop
  | .ok (_, last) => cur.Reaches last
  | .error f => cur.Reaches f.here

namespace Forward

variable {α β : Type} {cur mid : Cursor}

theorem of_reaches {result : Except Failure (α × Cursor)} (reached : cur.Reaches mid)
    (h : Forward mid result) : Forward cur result := by
  cases result with
  | ok found => exact reached.trans h
  | error f => exact reached.trans h

theorem bind {first : Except Failure (α × Cursor)}
    {second : α × Cursor → Except Failure (β × Cursor)} (h : Forward cur first)
    (next : ∀ found mid, Forward mid (second (found, mid))) : Forward cur (first >>= second) := by
  cases first with
  | ok found =>
    obtain ⟨found, mid⟩ := found
    exact of_reaches h (next found mid)
  | error f => exact h

theorem fail (problem : Problem) (here : Cursor) :
    Forward here (fail problem here : Except Failure (α × Cursor)) := Cursor.Reaches.refl here

theorem ok (found : α) (cur : Cursor) : Forward cur (.ok (found, cur)) := Cursor.Reaches.refl cur

end Forward

theorem readScalar_forward (inFlow : Bool) (tok : Token) :
    Forward tok.here (readScalar inFlow tok) := by
  cases read : readScalar inFlow tok with
  | ok found =>
    obtain ⟨s, last⟩ := found
    rw [← readScalar_unnumbered read] at read
    exact ⟨_, (readScalar_takes read).1⟩
  | error f =>
    unfold readScalar fail at read
    grind [Forward, Cursor.Reaches.refl]

theorem readBlockScalar_forward {style : ScalarStyle} {c : Char} {tok : Token} {rest : Text}
    (indicator : isIndicatorOf style c) (opening : tok.here.rest = c :: rest) (floor : Nat) :
    tok.here.Reaches (readBlockScalar style floor tok rest).2 := by
  have read : readBlockScalar style floor tok rest =
      ((readBlockScalar style floor tok rest).1.unnumbered, _) := rfl
  exact ⟨_, (readBlockScalar_takes indicator opening read).1⟩

theorem readComma_forward (closing : Char) (cur : Cursor) :
    Forward cur (readComma closing cur) := by
  cases read : readComma closing cur with
  | ok found =>
    obtain ⟨comma, last⟩ := found
    exact ⟨_, readComma_takes read⟩
  | error f =>
    have reached := Cursor.Reaches.token cur
    unfold readComma fail at read
    grind [Forward]

theorem readFlowKey_forward (here : Cursor) : Forward here (readFlowKey here) := by
  unfold readFlowKey
  refine (readScalar_forward true ⟨[], here⟩).bind ?_
  intro key mid
  have cut := Text.span_append isInlineBlank mid.rest
  dsimp only
  split
  · rename_i gap rest found
    rw [found] at cut
    exact .past (by rw [← cut]; simp)
  · rename_i gap rest _ found
    rw [found] at cut
    exact .past cut.symm

theorem readKey_forward (tok : Token) : Forward tok.here (readKey tok) := by
  cases read : readKey tok with
  | ok found =>
    obtain ⟨⟨key, gap⟩, last⟩ := found
    rw [← readKey_unnumbered read] at read
    exact ⟨_, (readKey_takes read).1⟩
  | error f =>
    unfold readKey fail at read
    grind [Forward, Cursor.Reaches.refl]

/-- The readers for flow collections never move backwards in `steps` steps. -/
structure FlowForward (steps : Nat) : Prop where
  value (tok : Token) : Forward tok.here (readFlowValue steps tok)
  items (cur : Cursor) : Forward cur (readFlowItems steps cur)
  entries (cur : Cursor) : Forward cur (readFlowEntries steps cur)
  entryValue (cur : Cursor) : Forward cur (readFlowEntryValue steps cur)

section Flow

variable {steps : Nat} (ih : FlowForward steps)

include ih

theorem readFlowValue_forward_step (tok : Token) :
    Forward tok.here (readFlowValue (steps + 1) tok) := by
  rw [readFlowValue]
  split
  · rename_i rest opening
    refine .of_reaches (.past opening) ((ih.items _).bind ?_)
    rintro ⟨items, closing⟩ cur
    exact .ok _ cur
  · rename_i rest opening
    refine .of_reaches (.past opening) ((ih.entries _).bind ?_)
    rintro ⟨entries, closing⟩ cur
    exact .ok _ cur
  · refine (readScalar_forward true tok).bind ?_
    intro scalar cur
    exact .ok _ cur

theorem readFlowItems_forward_step (cur : Cursor) :
    Forward cur (readFlowItems (steps + 1) cur) := by
  rw [readFlowItems]
  split
  rename_i lead here token
  have reached : cur.Reaches here := ⟨lead, cur.takes_of_token token⟩
  refine .of_reaches reached ?_
  split
  · exact .fail _ here
  · rename_i rest closes
    exact .past closes
  · refine (ih.value ⟨[], here⟩).bind ?_
    intro value mid
    refine (readComma_forward ']' mid).bind ?_
    intro comma next
    refine (ih.items next).bind ?_
    rintro ⟨items, closing⟩ last
    exact .ok _ last

theorem readFlowEntries_forward_step (cur : Cursor) :
    Forward cur (readFlowEntries (steps + 1) cur) := by
  rw [readFlowEntries]
  split
  rename_i lead here token
  have reached : cur.Reaches here := ⟨lead, cur.takes_of_token token⟩
  refine .of_reaches reached ?_
  split
  · exact .fail _ here
  · rename_i rest closes
    exact .past closes
  · refine (readFlowKey_forward here).bind ?_
    rintro ⟨key, gap⟩ afterColon
    refine (ih.entryValue afterColon).bind ?_
    intro value mid
    refine (readComma_forward '\x7d' mid).bind ?_
    intro comma next
    refine (ih.entries next).bind ?_
    rintro ⟨entries, closing⟩ last
    exact .ok _ last

theorem readFlowEntryValue_forward_step (cur : Cursor) :
    Forward cur (readFlowEntryValue (steps + 1) cur) := by
  rw [readFlowEntryValue]
  split
  · exact .of_reaches (.token cur) (.fail _ _)
  · split
    · exact .ok _ cur
    · exact .of_reaches (.token cur) (ih.value cur.token)

omit ih

theorem flowForward (steps : Nat) : FlowForward steps := by
  induction steps with
  | zero =>
    exact ⟨fun tok => .fail _ tok.here, fun cur => .fail _ cur, fun cur => .fail _ cur,
      fun cur => .fail _ cur⟩
  | succ steps ih =>
    exact ⟨readFlowValue_forward_step ih, readFlowItems_forward_step ih,
      readFlowEntries_forward_step ih, readFlowEntryValue_forward_step ih⟩

end Flow

/-! ## Values in block context -/

theorem readPlainValue_forward (floor : Nat) (tok : Token) :
    Forward tok.here (readPlainValue floor tok) := by
  unfold readPlainValue
  split
  · exact (flowForward _).value tok
  · exact (flowForward _).value tok
  · rename_i rest opening
    exact readBlockScalar_forward (.inl ⟨rfl, rfl⟩) opening floor
  · rename_i rest opening
    exact readBlockScalar_forward (.inr ⟨rfl, rfl⟩) opening floor
  · refine (readScalar_forward false tok).bind ?_
    intro scalar cur
    exact .ok _ cur

theorem readInlineValue_forward (floor : Nat) (tok : Token) :
    Forward tok.here (readInlineValue floor tok) := by
  unfold readInlineValue
  split
  · exact .fail _ _
  · split
    · exact .fail _ _
    · exact readPlainValue_forward floor tok

/-- What comes next is looked up at the token ahead, and so is what is wrong with it. -/
def AtToken (cur : Cursor) : Except Failure (Option Token) → Prop
  | .ok next => ∀ tok ∈ next, tok = cur.token
  | .error f => f.here = cur.token.here

theorem nextEntry_atToken (column : Nat) (cur : Cursor) : AtToken cur (nextEntry column cur) := by
  unfold nextEntry
  grind [AtToken]

theorem nextItem_atToken (column : Nat) (cur : Cursor) : AtToken cur (nextItem column cur) := by
  unfold nextItem
  grind [AtToken]

theorem AtToken.bind {β : Type} {cur : Cursor} {look : Except Failure (Option Token)}
    {second : Option Token → Except Failure (β × Cursor)} (h : AtToken cur look)
    (none : Forward cur (second none))
    (some : look = .ok (some cur.token) → Forward cur.token.here (second (some cur.token))) :
    Forward cur (look >>= second) := by
  cases look with
  | ok next =>
    cases next with
    | none => exact none
    | some tok =>
      obtain rfl := h tok rfl
      exact .of_reaches (.token cur) (some rfl)
  | error f =>
    show cur.Reaches f.here
    rw [h]
    exact .token cur

/-- The readers for block collections never move backwards in `steps` steps. -/
structure BlockForward (steps : Nat) : Prop where
  value (floor : Nat) (tok : Token) : Forward tok.here (readValue steps floor tok)
  entries (column : Nat) (tok : Token) : Forward tok.here (readEntries steps column tok)
  entryValue (column : Nat) (cur : Cursor) : Forward cur (readEntryValue steps column cur)
  items (column : Nat) (tok : Token) (opens : opensItem tok.here.rest = true) :
    Forward tok.here (readItems steps column tok)
  itemValue (column : Nat) (cur : Cursor) : Forward cur (readItemValue steps column cur)

section Block

variable {steps : Nat} (ih : BlockForward steps)

include ih

theorem readValue_forward_step (floor : Nat) (tok : Token) :
    Forward tok.here (readValue (steps + 1) floor tok) := by
  rw [readValue]
  split
  · rename_i opens
    refine (ih.items _ _ opens).bind ?_
    intro items cur
    exact .ok _ cur
  · split
    · refine (ih.entries _ _).bind ?_
      intro entries cur
      exact .ok _ cur
    · exact readPlainValue_forward floor tok

theorem readEntries_forward_step (column : Nat) (tok : Token) :
    Forward tok.here (readEntries (steps + 1) column tok) := by
  rw [readEntries]
  refine (readKey_forward tok).bind ?_
  rintro ⟨key, gap⟩ afterColon
  refine (ih.entryValue column afterColon).bind ?_
  intro value mid
  refine (nextEntry_atToken column mid).bind ?_ ?_
  · exact .ok _ mid
  · intro next
    refine (ih.entries column mid.token).bind ?_
    intro entries last
    exact .ok _ last

theorem readEntryValue_forward_step (column : Nat) (cur : Cursor) :
    Forward cur (readEntryValue (steps + 1) column cur) := by
  rw [readEntryValue]
  split
  · exact .ok _ cur
  · split
    · exact .of_reaches (.token cur) (readInlineValue_forward _ cur.token)
    · split
      · exact .of_reaches (.token cur) (ih.value _ cur.token)
      · split
        · rename_i level
          refine .of_reaches (.token cur) ((ih.items column cur.token level.2).bind ?_)
          intro items last
          exact .ok _ last
        · exact .ok _ cur

theorem readItems_forward_step (column : Nat) (tok : Token)
    (opens : opensItem tok.here.rest = true) :
    Forward tok.here (readItems (steps + 1) column tok) := by
  obtain ⟨rest, dash, -⟩ := opensItem_eq_true opens
  rw [readItems, dash]
  refine .of_reaches (.past dash) ((ih.itemValue column _).bind ?_)
  intro value mid
  refine (nextItem_atToken column mid).bind ?_ ?_
  · exact .ok _ mid
  · intro next
    have opens := (nextItem_eq_some.mp next).2.2.2
    refine (ih.items column mid.token opens).bind ?_
    intro items last
    exact .ok _ last

theorem readItemValue_forward_step (column : Nat) (cur : Cursor) :
    Forward cur (readItemValue (steps + 1) column cur) := by
  rw [readItemValue]
  split
  · exact .ok _ cur
  · exact .of_reaches (.token cur) (ih.value _ cur.token)

omit ih

theorem blockForward (steps : Nat) : BlockForward steps := by
  induction steps with
  | zero =>
    exact ⟨fun _ tok => .fail _ tok.here, fun _ tok => .fail _ tok.here, fun _ cur => .fail _ cur,
      fun _ tok _ => .fail _ tok.here, fun _ cur => .fail _ cur⟩
  | succ steps ih =>
    exact ⟨readValue_forward_step ih, readEntries_forward_step ih, readEntryValue_forward_step ih,
      readItems_forward_step ih, readItemValue_forward_step ih⟩

end Block

theorem readBody_forward (cur : Cursor) : Forward cur (readBody cur) := by
  unfold readBody
  dsimp only
  split
  · exact .ok _ cur
  · exact .of_reaches (.token cur) ((blockForward _).value 0 cur.token)

theorem readDocumentEnd_forward (cur : Cursor) : Forward cur (readDocumentEnd cur) := by
  cases read : readDocumentEnd cur with
  | ok found =>
    obtain ⟨⟨tail, marked⟩, last⟩ := found
    exact ⟨_, readDocumentEnd_takes read⟩
  | error f =>
    have reached := Cursor.Reaches.token cur
    unfold readDocumentEnd fail at read
    grind [Forward]

theorem readDocument_forward (cur : Cursor) : Forward cur (readDocument cur) := by
  unfold readDocument
  cases start : readDocumentStart cur with | mk opening afterStart => ?_
  have started : cur.Reaches afterStart := ⟨_, readDocumentStart_takes start⟩
  refine .of_reaches started ((readBody_forward afterStart).bind ?_)
  intro body afterBody
  refine (readDocumentEnd_forward afterBody).bind ?_
  rintro ⟨tail, marked⟩ last
  exact .ok _ last

/-- A stream that cannot be read fails at a place reached from its start. -/
theorem reaches_of_readDocuments {steps : Nat} {cur : Cursor} {f : Failure}
    (h : readDocuments steps cur = .error f) : cur.Reaches f.here := by
  induction steps generalizing cur with
  | zero =>
    cases h
    exact .refl cur
  | succ steps ih =>
    have forward := readDocument_forward cur
    rw [readDocuments] at h
    cases read : readDocument cur with
    | error g =>
      rw [read] at h forward
      cases h
      exact forward
    | ok found =>
      obtain ⟨d, mid⟩ := found
      rw [read] at h forward
      simp only [bind, Except.bind] at h
      split at h
      · contradiction
      · cases others : readDocuments steps mid with
        | ok _ =>
          rw [others] at h
          contradiction
        | error g =>
          rw [others] at h
          cases h
          exact forward.trans (ih others)

theorem reaches_of_readStream {text : Text} {f : Failure} (h : readStream text = .error f) :
    (Cursor.start text).Reaches f.here := by
  unfold readStream at h
  cases read : readDocuments (stepBudget text) (.start text) with
  | ok _ =>
    rw [read] at h
    contradiction
  | error g =>
    rw [read] at h
    cases h
    exact reaches_of_readDocuments read

end ConfigTree.Yaml
