import ConfigTree.Proofs.Yaml.Lossless

/-!
# The readers follow the rules

Every successful run of a reader is a derivation by the rules of reading, and every derivation is
found by the reader when its step budget is large enough. How large depends on the length of the
text alone, and the budgets that the readers are started with suffice.
-/

namespace ConfigTree

/-- Two steps succeed where the first does and the second does with its result. -/
theorem bind_eq_ok {ε α β : Type} {first : Except ε α} {second : α → Except ε β} {result : β} :
    first >>= second = .ok result ↔ ∃ mid, first = .ok mid ∧ second mid = .ok result := by
  cases first with
  | error e => simp [bind, Except.bind]
  | ok mid => simp [bind, Except.bind]

namespace Yaml

theorem unnumberedEntries_eq_cons {es fs : List Entry} {e : Entry}
    (h : unnumberedEntries es = e :: fs) :
    ∃ e' es', es = e' :: es' ∧ e'.unnumbered = e ∧ unnumberedEntries es' = fs := by
  cases es with
  | nil => contradiction
  | cons e' es' =>
    obtain ⟨head, tail⟩ := List.cons.inj h
    exact ⟨e', es', rfl, head, tail⟩

theorem unnumberedItems_eq_cons {is js : List Item} {i : Item} (h : unnumberedItems is = i :: js) :
    ∃ i' is', is = i' :: is' ∧ i'.unnumbered = i ∧ unnumberedItems is' = js := by
  cases is with
  | nil => contradiction
  | cons i' is' =>
    obtain ⟨head, tail⟩ := List.cons.inj h
    exact ⟨i', is', rfl, head, tail⟩

theorem unnumberedEntries_eq_nil {es : List Entry} (h : unnumberedEntries es = []) : es = [] := by
  cases es with
  | nil => rfl
  | cons _ _ => contradiction

theorem unnumberedItems_eq_nil {is : List Item} (h : unnumberedItems is = []) : is = [] := by
  cases is with
  | nil => rfl
  | cons _ _ => contradiction

/-- A scalar as `readScalar` gives it has no number. -/
theorem readScalar_unnumbered {inFlow : Bool} {tok : Token} {s : Scalar} {last : Cursor}
    (h : readScalar inFlow tok = .ok (s, last)) : s.unnumbered = s := by
  obtain ⟨-, _, _, _, _, _, rfl, _⟩ := readScalar_eq_ok.mp h
  rfl

theorem readKey_unnumbered {tok : Token} {key : Scalar} {gap : Text} {last : Cursor}
    (h : readKey tok = .ok ((key, gap), last)) : key.unnumbered = key := by
  obtain ⟨-, _, _, fresh, _⟩ := readKey_eq_ok.mp h
  rw [fresh]
  rfl

theorem readFlowKey_unnumbered {here : Cursor} {key : Scalar} {gap : Text} {last : Cursor}
    (h : readFlowKey here = .ok ((key, gap), last)) : key.unnumbered = key := by
  obtain ⟨_, _, read, _, _⟩ := readFlowKey_eq_ok.mp h
  exact readScalar_unnumbered read

/-! ## Runs are derivations

The result of a run may be any tree that looks like the one read: that is how the numbered tree gets
its derivation. -/

/-- Runs of the readers for flow collections with `steps` steps are derivations. -/
structure FlowSound (steps : Nat) : Prop where
  value {cur last : Cursor} {v v' : Value} (run : readFlowValue steps cur.token = .ok (v, last))
    (same : v'.unnumbered = v.unnumbered) : ReadsFlowValue cur v' last
  items {cur last : Cursor} {items items' : List Item} {closing : Text}
    (run : readFlowItems steps cur = .ok ((items, closing), last))
    (same : unnumberedItems items' = unnumberedItems items) : ReadsFlowItems cur items' closing last
  entries {cur last : Cursor} {entries entries' : List Entry} {closing : Text}
    (run : readFlowEntries steps cur = .ok ((entries, closing), last))
    (same : unnumberedEntries entries' = unnumberedEntries entries) :
    ReadsFlowEntries cur entries' closing last
  entryValue {cur last : Cursor} {v v' : Value} (run : readFlowEntryValue steps cur = .ok (v, last))
    (same : v'.unnumbered = v.unnumbered) : ReadsFlowEntryValue cur v' last

section Flow

variable {steps : Nat} (ih : FlowSound steps)

include ih

theorem readsFlowValue_of_step {cur last : Cursor} {v v' : Value}
    (run : readFlowValue (steps + 1) cur.token = .ok (v, last))
    (same : v'.unnumbered = v.unnumbered) :
    ReadsFlowValue cur v' last := by
  rw [readFlowValue] at run
  split at run
  · rename_i rest opening
    obtain ⟨⟨⟨items, closing⟩, cur'⟩, inner, done⟩ := bind_eq_ok.mp run
    cases done
    obtain ⟨⟨id, style, items'⟩, rfl, shape⟩ := Value.eq_sequence_of_unnumbered same
    obtain ⟨rfl, sameItems⟩ : style = _ ∧ unnumberedItems items' = unnumberedItems items :=
      ⟨congrArg Sequence.style shape, congrArg Sequence.items shape⟩
    exact .sequence rfl opening (ih.items inner sameItems)
  · rename_i rest opening
    obtain ⟨⟨⟨entries, closing⟩, cur'⟩, inner, done⟩ := bind_eq_ok.mp run
    cases done
    obtain ⟨⟨id, style, entries'⟩, rfl, shape⟩ := Value.eq_mapping_of_unnumbered same
    obtain ⟨rfl, sameEntries⟩ :
      style = _ ∧ unnumberedEntries entries' = unnumberedEntries entries :=
      ⟨congrArg Mapping.style shape, congrArg Mapping.entries shape⟩
    exact .mapping rfl opening (ih.entries inner sameEntries)
  · rename_i notSequence notMapping
    obtain ⟨⟨s, cur'⟩, read, done⟩ := bind_eq_ok.mp run
    cases done
    obtain ⟨s', rfl, sameScalar⟩ := Value.eq_scalar_of_unnumbered same
    refine .scalar ?_ ?_ ?_
    · intro opening
      obtain ⟨rest, opening⟩ := List.head?_eq_some_iff.mp opening
      exact notSequence rest opening
    · intro opening
      obtain ⟨rest, opening⟩ := List.head?_eq_some_iff.mp opening
      exact notMapping rest opening
    · rw [sameScalar, readScalar_unnumbered read]
      exact read

theorem readsFlowItems_of_step {cur last : Cursor} {items items' : List Item}
    {closing : Text} (run : readFlowItems (steps + 1) cur = .ok ((items, closing), last))
    (same : unnumberedItems items' = unnumberedItems items) :
    ReadsFlowItems cur items' closing last := by
  rw [readFlowItems] at run
  split at run
  rename_i lead here token
  split at run
  · contradiction
  · rename_i rest closes
    cases run
    rw [unnumberedItems_eq_nil same]
    exact .close token closes
  · rename_i notEnd notClosing
    obtain ⟨⟨value, mid⟩, valueRun, run⟩ := bind_eq_ok.mp run
    obtain ⟨⟨comma, next⟩, commaRead, run⟩ := bind_eq_ok.mp run
    obtain ⟨⟨⟨others, closing'⟩, last'⟩, othersRun, done⟩ := bind_eq_ok.mp run
    cases done
    obtain ⟨⟨id, lead', dash, value', comma'⟩, others', rfl, shape, sameOthers⟩ :=
      unnumberedItems_eq_cons same
    obtain ⟨-, rfl, rfl, sameValue, rfl⟩ := Item.mk.inj shape
    rw [← cur.token_of_token token] at valueRun
    refine .item token ?_ (ih.value valueRun sameValue) commaRead
      (ih.items othersRun sameOthers)
    intro closes
    obtain ⟨rest, closes⟩ := List.head?_eq_some_iff.mp closes
    exact notClosing rest closes

theorem readsFlowEntries_of_step {cur last : Cursor} {entries entries' : List Entry}
    {closing : Text} (run : readFlowEntries (steps + 1) cur = .ok ((entries, closing), last))
    (same : unnumberedEntries entries' = unnumberedEntries entries) :
    ReadsFlowEntries cur entries' closing last := by
  rw [readFlowEntries] at run
  split at run
  rename_i lead here token
  split at run
  · contradiction
  · rename_i rest closes
    cases run
    rw [unnumberedEntries_eq_nil same]
    exact .close token closes
  · rename_i notEnd notClosing
    obtain ⟨⟨⟨key, gap⟩, afterColon⟩, keyRead, run⟩ := bind_eq_ok.mp run
    obtain ⟨⟨value, mid⟩, valueRun, run⟩ := bind_eq_ok.mp run
    obtain ⟨⟨comma, next⟩, commaRead, run⟩ := bind_eq_ok.mp run
    obtain ⟨⟨⟨others, closing'⟩, last'⟩, othersRun, done⟩ := bind_eq_ok.mp run
    cases done
    obtain ⟨⟨id, lead', key', gap', value', comma'⟩, others', rfl, shape, sameOthers⟩ :=
      unnumberedEntries_eq_cons same
    obtain ⟨-, rfl, sameKey, rfl, sameValue, rfl⟩ := Entry.mk.inj shape
    refine .entry token ?_ ?_ (ih.entryValue valueRun sameValue) commaRead
      (ih.entries othersRun sameOthers)
    · intro closes
      obtain ⟨rest, closes⟩ := List.head?_eq_some_iff.mp closes
      exact notClosing rest closes
    · rw [sameKey, readFlowKey_unnumbered keyRead]
      exact keyRead

theorem readsFlowEntryValue_of_step {cur last : Cursor} {v v' : Value}
    (run : readFlowEntryValue (steps + 1) cur = .ok (v, last))
    (same : v'.unnumbered = v.unnumbered) :
    ReadsFlowEntryValue cur v' last := by
  rw [readFlowEntryValue] at run
  split at run
  · contradiction
  · rename_i c rest next
    split at run
    · rename_i stops
      cases run
      obtain ⟨s', rfl, empty⟩ := Value.eq_scalar_of_unnumbered same
      refine .absent empty ?_
      rw [next]
      exact stops.imp (congrArg some) (congrArg some)
    · rename_i goesOn
      obtain ⟨notComma, notClosing⟩ := not_or.mp goesOn
      refine .value ?_ ?_ (ih.value run same)
      · rw [next]
        exact fun same => notComma (Option.some.inj same)
      · rw [next]
        exact fun same => notClosing (Option.some.inj same)

omit ih

theorem flowSound (steps : Nat) : FlowSound steps := by
  induction steps with
  | zero => exact ⟨nofun, nofun, nofun, nofun⟩
  | succ steps ih =>
    exact ⟨readsFlowValue_of_step ih, readsFlowItems_of_step ih, readsFlowEntries_of_step ih,
      readsFlowEntryValue_of_step ih⟩

end Flow

theorem readsPlainValue_of_run {floor : Nat} {cur last : Cursor} {v v' : Value}
    (run : readPlainValue floor cur.token = .ok (v, last)) (same : v'.unnumbered = v.unnumbered) :
    ReadsPlainValue floor cur v' last := by
  unfold readPlainValue at run
  split at run
  · rename_i rest opening
    exact .flow (.inl (by rw [opening]; rfl)) ((flowSound _).value run same)
  · rename_i rest opening
    exact .flow (.inr (by rw [opening]; rfl)) ((flowSound _).value run same)
  · rename_i rest opening
    cases run
    obtain ⟨s', rfl, sameScalar⟩ := Value.eq_scalar_of_unnumbered same
    exact .block (.inl ⟨rfl, rfl⟩) opening (by rw [sameScalar]; rfl)
  · rename_i rest opening
    cases run
    obtain ⟨s', rfl, sameScalar⟩ := Value.eq_scalar_of_unnumbered same
    exact .block (.inr ⟨rfl, rfl⟩) opening (by rw [sameScalar]; rfl)
  · rename_i notSequence notMapping notLiteral notFolded
    obtain ⟨⟨s, cur'⟩, read, done⟩ := bind_eq_ok.mp run
    cases done
    obtain ⟨s', rfl, sameScalar⟩ := Value.eq_scalar_of_unnumbered same
    refine .scalar ?_ ?_
    · intro c first
      obtain ⟨rest, first⟩ := List.head?_eq_some_iff.mp first
      simp only [List.mem_cons, List.not_mem_nil, or_false, not_or]
      refine ⟨?_, ?_, ?_, ?_⟩ <;> rintro rfl
      · exact notSequence rest first
      · exact notMapping rest first
      · exact notLiteral rest first
      · exact notFolded rest first
    · rw [sameScalar, readScalar_unnumbered read]
      exact read

/-- Runs of the readers for block collections with `steps` steps are derivations. -/
structure BlockSound (steps : Nat) : Prop where
  value {floor : Nat} {cur last : Cursor} {v v' : Value}
    (run : readValue steps floor cur.token = .ok (v, last))
    (same : v'.unnumbered = v.unnumbered) : ReadsValue floor cur v' last
  entries {column : Nat} {cur last : Cursor} {entries entries' : List Entry}
    (run : readEntries steps column cur.token = .ok (entries, last))
    (same : unnumberedEntries entries' = unnumberedEntries entries) :
    ReadsEntries column cur entries' last
  entryValue {column : Nat} {cur last : Cursor} {v v' : Value}
    (run : readEntryValue steps column cur = .ok (v, last))
    (same : v'.unnumbered = v.unnumbered) : ReadsEntryValue column cur v' last
  items {column : Nat} {cur last : Cursor} {items items' : List Item}
    (run : readItems steps column cur.token = .ok (items, last))
    (opens : opensItem cur.token.here.rest = true)
    (same : unnumberedItems items' = unnumberedItems items) : ReadsItems column cur items' last
  itemValue {column : Nat} {cur last : Cursor} {v v' : Value}
    (run : readItemValue steps column cur = .ok (v, last))
    (same : v'.unnumbered = v.unnumbered) : ReadsItemValue column cur v' last

section Block

variable {steps : Nat} (ih : BlockSound steps)

include ih

theorem readsValue_of_step {floor : Nat} {cur last : Cursor} {v v' : Value}
    (run : readValue (steps + 1) floor cur.token = .ok (v, last))
    (same : v'.unnumbered = v.unnumbered) :
    ReadsValue floor cur v' last := by
  rw [readValue] at run
  split at run
  · rename_i opens
    obtain ⟨⟨items, cur'⟩, itemsRun, done⟩ := bind_eq_ok.mp run
    cases done
    obtain ⟨⟨id, style, items'⟩, rfl, shape⟩ := Value.eq_sequence_of_unnumbered same
    obtain ⟨-, rfl, sameItems⟩ := Sequence.mk.inj shape
    exact .sequence opens (ih.items itemsRun opens sameItems)
  · rename_i notItem
    split at run
    · rename_i opens
      obtain ⟨⟨entries, cur'⟩, entriesRun, done⟩ := bind_eq_ok.mp run
      cases done
      obtain ⟨⟨id, style, entries'⟩, rfl, shape⟩ := Value.eq_mapping_of_unnumbered same
      obtain ⟨-, rfl, sameEntries⟩ := Mapping.mk.inj shape
      exact .mapping (eq_false_of_ne_true notItem) opens (ih.entries entriesRun sameEntries)
    · rename_i notEntry
      exact .plain (eq_false_of_ne_true notItem) (eq_false_of_ne_true notEntry)
        (readsPlainValue_of_run run same)

theorem readsEntries_of_step {column : Nat} {cur last : Cursor} {entries entries' : List Entry}
    (run : readEntries (steps + 1) column cur.token = .ok (entries, last))
    (same : unnumberedEntries entries' = unnumberedEntries entries) :
    ReadsEntries column cur entries' last := by
  rw [readEntries] at run
  obtain ⟨⟨⟨key, gap⟩, afterColon⟩, keyRead, run⟩ := bind_eq_ok.mp run
  obtain ⟨⟨value, mid⟩, valueRun, run⟩ := bind_eq_ok.mp run
  obtain ⟨next, nextRun, run⟩ := bind_eq_ok.mp run
  cases next with
  | none =>
    cases run
    obtain ⟨⟨id, lead', key', gap', value', comma'⟩, others', rfl, shape, sameOthers⟩ :=
      unnumberedEntries_eq_cons same
    obtain ⟨-, rfl, sameKey, rfl, sameValue, rfl⟩ := Entry.mk.inj shape
    obtain rfl := unnumberedEntries_eq_nil sameOthers
    refine .last rfl ?_ (ih.entryValue valueRun sameValue) nextRun
    rw [sameKey, readKey_unnumbered keyRead]
    exact keyRead
  | some tok =>
    obtain ⟨rfl, -⟩ := nextEntry_eq_some.mp nextRun
    obtain ⟨⟨others, last'⟩, othersRun, done⟩ := bind_eq_ok.mp run
    cases done
    obtain ⟨⟨id, lead', key', gap', value', comma'⟩, others', rfl, shape, sameOthers⟩ :=
      unnumberedEntries_eq_cons same
    obtain ⟨-, rfl, sameKey, rfl, sameValue, rfl⟩ := Entry.mk.inj shape
    refine .more rfl ?_ (ih.entryValue valueRun sameValue) nextRun
      (ih.entries othersRun sameOthers)
    rw [sameKey, readKey_unnumbered keyRead]
    exact keyRead

theorem readsEntryValue_of_step {column : Nat} {cur last : Cursor} {v v' : Value}
    (run : readEntryValue (steps + 1) column cur = .ok (v, last))
    (same : v'.unnumbered = v.unnumbered) :
    ReadsEntryValue column cur v' last := by
  rw [readEntryValue] at run
  split at run
  · rename_i ends
    cases run
    obtain ⟨s', rfl, empty⟩ := Value.eq_scalar_of_unnumbered same
    exact .absent empty (.inl ends)
  · rename_i more
    have more := eq_false_of_ne_true more
    split at run
    · rename_i sameLine
      have sameLine := eq_false_of_ne_true sameLine
      obtain ⟨notItem, notEntry, run⟩ := readInlineValue_eq_ok.mp run
      exact .inline more sameLine notItem notEntry (readsPlainValue_of_run run same)
    · rename_i newLine
      have newLine := Decidable.not_not.mp newLine
      split at run
      · rename_i inside
        exact .nested more newLine inside (ih.value run same)
      · rename_i notInside
        split at run
        · rename_i level
          obtain ⟨⟨items, cur'⟩, itemsRun, done⟩ := bind_eq_ok.mp run
          cases done
          obtain ⟨⟨id, style, items'⟩, rfl, shape⟩ := Value.eq_sequence_of_unnumbered same
          obtain ⟨-, rfl, sameItems⟩ := Sequence.mk.inj shape
          exact .sequence more newLine level.1 level.2 (ih.items itemsRun level.2 sameItems)
        · rename_i notLevel
          cases run
          obtain ⟨s', rfl, empty⟩ := Value.eq_scalar_of_unnumbered same
          exact .absent empty (.inr ⟨newLine, Nat.le_of_not_lt notInside, notLevel⟩)

theorem readsItems_of_step {column : Nat} {cur last : Cursor} {items items' : List Item}
    (run : readItems (steps + 1) column cur.token = .ok (items, last))
    (opens : opensItem cur.token.here.rest = true)
    (same : unnumberedItems items' = unnumberedItems items) :
    ReadsItems column cur items' last := by
  obtain ⟨rest, dash, blank⟩ := opensItem_eq_true opens
  rw [readItems, dash] at run
  obtain ⟨⟨value, mid⟩, valueRun, run⟩ := bind_eq_ok.mp run
  obtain ⟨next, nextRun, run⟩ := bind_eq_ok.mp run
  cases next with
  | none =>
    cases run
    obtain ⟨⟨id, lead', dash', value', comma'⟩, others', rfl, shape, sameOthers⟩ :=
      unnumberedItems_eq_cons same
    obtain ⟨-, rfl, rfl, sameValue, rfl⟩ := Item.mk.inj shape
    obtain rfl := unnumberedItems_eq_nil sameOthers
    exact .last rfl dash blank (ih.itemValue valueRun sameValue) nextRun
  | some tok =>
    obtain ⟨rfl, -, -, nextOpens⟩ := nextItem_eq_some.mp nextRun
    obtain ⟨⟨others, last'⟩, othersRun, done⟩ := bind_eq_ok.mp run
    cases done
    obtain ⟨⟨id, lead', dash', value', comma'⟩, others', rfl, shape, sameOthers⟩ :=
      unnumberedItems_eq_cons same
    obtain ⟨-, rfl, rfl, sameValue, rfl⟩ := Item.mk.inj shape
    exact .more rfl dash blank (ih.itemValue valueRun sameValue) nextRun
      (ih.items othersRun nextOpens sameOthers)

theorem readsItemValue_of_step {column : Nat} {cur last : Cursor} {v v' : Value}
    (run : readItemValue (steps + 1) column cur = .ok (v, last))
    (same : v'.unnumbered = v.unnumbered) :
    ReadsItemValue column cur v' last := by
  rw [readItemValue] at run
  split at run
  · rename_i absent
    cases run
    obtain ⟨s', rfl, empty⟩ := Value.eq_scalar_of_unnumbered same
    exact .absent empty absent
  · rename_i present
    obtain ⟨more, inside⟩ := not_or.mp present
    refine .value (eq_false_of_ne_true more) ?_ (ih.value run same)
    intro newLine
    exact Nat.lt_of_not_le fun outside => inside ⟨newLine, outside⟩

omit ih

theorem blockSound (steps : Nat) : BlockSound steps := by
  induction steps with
  | zero => exact ⟨nofun, nofun, nofun, nofun, nofun⟩
  | succ steps ih =>
    exact ⟨readsValue_of_step ih, readsEntries_of_step ih, readsEntryValue_of_step ih,
      readsItems_of_step ih, readsItemValue_of_step ih⟩

end Block

theorem readsBody_of_run {cur last : Cursor} {v v' : Value} (run : readBody cur = .ok (v, last))
    (same : v'.unnumbered = v.unnumbered) : ReadsBody cur v' last := by
  unfold readBody at run
  dsimp only at run
  split at run
  · rename_i ends
    cases run
    obtain ⟨s', rfl, empty⟩ := Value.eq_scalar_of_unnumbered same
    exact .absent empty ends
  · rename_i more
    exact .value (eq_false_of_ne_true more) ((blockSound _).value run same)

theorem readsDocument_of_run {cur last : Cursor} {d d' : Document}
    (run : readDocument cur = .ok (d, last)) (same : d'.unnumbered = d.unnumbered) :
    ReadsDocument cur d' last := by
  unfold readDocument at run
  cases start : readDocumentStart cur with | mk opening afterStart => ?_
  rw [start] at run
  obtain ⟨⟨body, afterBody⟩, bodyRun, run⟩ := bind_eq_ok.mp run
  obtain ⟨⟨⟨tail, marked⟩, last'⟩, ending, done⟩ := bind_eq_ok.mp run
  cases done
  obtain ⟨id, lead, explicitStart, body', tail', explicitEnd⟩ := d'
  simp only [Document.unnumbered, Document.mk.injEq, true_and] at same
  obtain ⟨sameLead, sameStart, sameBody, rfl, rfl⟩ := same
  exact .document start sameLead sameStart (readsBody_of_run bodyRun sameBody) ending

theorem readsDocuments_of_run {steps : Nat} {cur : Cursor} {ds ds' : List Document} {trailer : Text}
    (run : readDocuments steps cur = .ok (ds, trailer))
    (same : ds'.map Document.unnumbered = ds.map Document.unnumbered) :
    ReadsDocuments cur ds' trailer := by
  induction steps generalizing cur ds ds' with
  | zero => contradiction
  | succ steps ih =>
    rw [readDocuments] at run
    obtain ⟨⟨d, mid⟩, documentRun, run⟩ := bind_eq_ok.mp run
    dsimp only at run
    split at run
    · rename_i ends
      cases run
      obtain ⟨d', ds'', rfl, sameDocument, sameOthers⟩ := List.map_eq_cons_iff.mp same
      obtain rfl := List.map_eq_nil_iff.mp sameOthers
      have marked : d.explicitEnd = d'.explicitEnd :=
        (congrArg Document.explicitEnd sameDocument).symm
      rw [marked]
      exact .last (readsDocument_of_run documentRun sameDocument) ends
    · rename_i goesOn
      obtain ⟨⟨others, trailer'⟩, othersRun, done⟩ := bind_eq_ok.mp run
      cases done
      obtain ⟨d', ds'', rfl, sameDocument, sameOthers⟩ := List.map_eq_cons_iff.mp same
      exact .more (readsDocument_of_run documentRun sameDocument) (eq_false_of_ne_true goesOn)
        (ih othersRun sameOthers)

/-- A stream that is the one parsed, up to identity, is read by the rules. -/
theorem readsStream_of_unnumbered {text : Text} {s s' : Stream} (h : parse text = .ok s)
    (same : s'.unnumbered = s.unnumbered) : ReadsStream text s' := by
  obtain ⟨raw, run, -, read⟩ := unnumbered_of_parse h
  rw [read] at same
  unfold readStream at run
  obtain ⟨⟨documents, trailer⟩, documentsRun, done⟩ := bind_eq_ok.mp run
  cases done
  obtain ⟨-, sameDocuments, sameTrailer⟩ := Stream.mk.inj same
  rw [ReadsStream, sameTrailer]
  exact readsDocuments_of_run documentsRun sameDocuments

/-- A stream that was parsed has been read by the rules. -/
theorem readsStream_of_parse {text : Text} {s : Stream} (h : parse text = .ok s) :
    ReadsStream text s :=
  readsStream_of_unnumbered h rfl

/-- A tree prints as the text it was parsed from. -/
theorem print_of_parse {text : Text} {s : Stream} (h : parse text = .ok s) : s.print = text :=
  (readsStream_of_parse h).print_eq

/-- A text with markers, comments, both kinds of line ends, empty values and every style. -/
def annotatedText : Text :=
  ("# head\r\n--- \nserver: \x7bport: 80 , 'a''b': [x,y ,]\x7d # note\nlist:\n- - 1\n  - 'q'\n-\n" ++
    "notes: |2\n   kept\n\n  more\nlast: \"\\\"\"\n...\n\n---\n# only a comment\n...  \n").toList

theorem print_of_parse_annotatedText :
    ∃ s, parse annotatedText = .ok s ∧ s.print = annotatedText := by
  obtain ⟨s, parsed, -⟩ : ∃ s, parse annotatedText = .ok s ∧ s.documents.length = 2 :=
    exists_parse (by decide +kernel)
  exact ⟨s, parsed, print_of_parse parsed⟩

/-! ## Derivations are runs

Inside flow collections every rule takes a character for every two steps down, in block context for
every four. -/

theorem readScalar_length_lt {inFlow : Bool} {tok : Token} {s : Scalar} {last : Cursor}
    (h : readScalar inFlow tok = .ok (s.unnumbered, last)) :
    last.rest.length < tok.here.rest.length := by
  obtain ⟨taken, nonempty, -, -⟩ := readScalar_takes h
  exact taken.length_lt nonempty

theorem ReadsFlowValue.length_lt {cur last : Cursor} {v : Value} (h : ReadsFlowValue cur v last) :
    last.rest.length < cur.token.here.rest.length := by
  cases h with
  | sequence token opening inner =>
    have inside := inner.takes.length_le
    rw [token, opening]
    exact Nat.lt_succ_of_le inside
  | mapping token opening inner =>
    have inside := inner.takes.length_le
    rw [token, opening]
    exact Nat.lt_succ_of_le inside
  | scalar _ _ read => exact readScalar_length_lt read

theorem readFlowKey_length_lt {here last : Cursor} {key : Scalar} {gap : Text}
    (h : readFlowKey here = .ok ((key.unnumbered, gap), last)) :
    last.rest.length < here.rest.length := by
  obtain ⟨taken, nonempty, -, -⟩ := readFlowKey_takes h
  exact taken.length_lt (by simp)

mutual

theorem ReadsFlowValue.run {cur last : Cursor} {v : Value} (steps : Nat)
    (enough : 2 * cur.token.here.rest.length ≤ steps) :
    ReadsFlowValue cur v last → readFlowValue steps cur.token = .ok (v.unnumbered, last)
  | .sequence token opening inner => by
    rw [token] at enough ⊢
    simp only [opening, List.length_cons] at enough
    obtain ⟨steps, rfl⟩ := Nat.exists_eq_add_one.mpr (show 0 < steps by omega)
    have items := inner.run steps (by simp only [Cursor.rest_past]; omega)
    simp only [readFlowValue, opening, items]
    rfl
  | .mapping token opening inner => by
    rw [token] at enough ⊢
    simp only [opening, List.length_cons] at enough
    obtain ⟨steps, rfl⟩ := Nat.exists_eq_add_one.mpr (show 0 < steps by omega)
    have entries := inner.run steps (by simp only [Cursor.rest_past]; omega)
    simp only [readFlowValue, opening, entries]
    rfl
  | .scalar notSequence notMapping read => by
    have := readScalar_length_lt read
    obtain ⟨steps, rfl⟩ := Nat.exists_eq_add_one.mpr (show 0 < steps by omega)
    rw [readFlowValue]
    split
    · simp_all
    · simp_all
    · rw [read]
      rfl

theorem ReadsFlowItems.run {cur last : Cursor} {items : List Item} {closing : Text} (steps : Nat)
    (enough : 2 * cur.rest.length + 1 ≤ steps) :
    ReadsFlowItems cur items closing last →
      readFlowItems steps cur = .ok ((unnumberedItems items, closing), last)
  | .close token closing => by
    obtain ⟨steps, rfl⟩ := Nat.exists_eq_add_one.mpr (show 0 < steps by omega)
    simp only [readFlowItems, token, closing]
    rfl
  | .item token notClosing valueRead commaRead others => by
    obtain ⟨steps, rfl⟩ := Nat.exists_eq_add_one.mpr (show 0 < steps by omega)
    have atToken := (cur.takes_of_token token).length_le
    have hereToken := cur.token_of_token token
    have valueLength := valueRead.length_lt
    have commaLength := (readComma_takes commaRead).length_le
    simp only [hereToken] at valueLength
    have value := valueRead.run steps (by rw [hereToken]; dsimp only; omega)
    have items := others.run steps (by omega)
    rw [hereToken] at value
    rw [readFlowItems, token]
    dsimp only
    split
    · simp_all
    · simp_all
    · simp only [value, commaRead, items, bind, Except.bind]
      rfl

theorem ReadsFlowEntries.run {cur last : Cursor} {entries : List Entry} {closing : Text}
    (steps : Nat) (enough : 2 * cur.rest.length + 1 ≤ steps) :
    ReadsFlowEntries cur entries closing last →
      readFlowEntries steps cur = .ok ((unnumberedEntries entries, closing), last)
  | .close token closing => by
    obtain ⟨steps, rfl⟩ := Nat.exists_eq_add_one.mpr (show 0 < steps by omega)
    simp only [readFlowEntries, token, closing]
    rfl
  | .entry token notClosing keyRead valueRead commaRead others => by
    obtain ⟨steps, rfl⟩ := Nat.exists_eq_add_one.mpr (show 0 < steps by omega)
    have atToken := (cur.takes_of_token token).length_le
    have keyLength := readFlowKey_length_lt keyRead
    have valueLength := valueRead.takes.length_le
    have commaLength := (readComma_takes commaRead).length_le
    have value := valueRead.run steps (by omega)
    have entries := others.run steps (by omega)
    rw [readFlowEntries, token]
    dsimp only
    split
    · simp_all
    · simp_all
    · simp only [keyRead, value, commaRead, entries, bind, Except.bind]
      rfl

theorem ReadsFlowEntryValue.run {cur last : Cursor} {v : Value} (steps : Nat)
    (enough : 2 * cur.rest.length + 1 ≤ steps) :
    ReadsFlowEntryValue cur v last → readFlowEntryValue steps cur = .ok (v.unnumbered, last)
  | .absent empty next => by
    obtain ⟨steps, rfl⟩ := Nat.exists_eq_add_one.mpr (show 0 < steps by omega)
    rw [readFlowEntryValue, Value.unnumbered, empty]
    split
    · simp_all
    · simp_all [Value.empty]
  | .value notComma notClosing valueRead => by
    obtain ⟨steps, rfl⟩ := Nat.exists_eq_add_one.mpr (show 0 < steps by omega)
    have := valueRead.length_lt
    have := cur.length_token_le
    have value := valueRead.run steps (by omega)
    rw [readFlowEntryValue]
    split
    · simp_all
    · simp_all

end

theorem readPlainValue_run {floor : Nat} {cur last : Cursor} {v : Value}
    (h : ReadsPlainValue floor cur v last) :
    readPlainValue floor cur.token = .ok (v.unnumbered, last) := by
  unfold readPlainValue
  cases h with
  | flow opening valueRead =>
    have value := valueRead.run (stepBudget cur.token.here.rest) (by unfold stepBudget; omega)
    rw [← value]
    rcases opening with opening | opening
    all_goals
      obtain ⟨rest, opening⟩ := List.head?_eq_some_iff.mp opening
      rw [opening]
      rfl
  | block indicator opening read =>
    rcases indicator with ⟨rfl, rfl⟩ | ⟨rfl, rfl⟩
    all_goals
      rw [opening]
      simp only [read]
      rfl
  | scalar notIndicator read =>
    split
    · simp_all
    · simp_all
    · simp_all
    · simp_all
    · rw [read]
      rfl

theorem Cursor.token_budget {cur : Cursor} {steps : Nat} (h : 4 * cur.rest.length + 1 ≤ steps) :
    4 * cur.token.here.rest.length + 1 ≤ steps := by
  have := cur.length_token_le
  omega

theorem readKey_length_lt {tok : Token} {key : Scalar} {gap : Text} {last : Cursor}
    (h : readKey tok = .ok ((key.unnumbered, gap), last)) :
    last.rest.length + 1 < tok.here.rest.length := by
  obtain ⟨taken, nonempty, -, -⟩ := readKey_takes h
  have whole := taken.length_eq
  have := List.length_pos_iff.mpr nonempty
  simp only [List.length_append, List.length_singleton] at whole
  omega

mutual

theorem ReadsValue.run {floor : Nat} {cur last : Cursor} {v : Value} (steps : Nat)
    (enough : 4 * cur.token.here.rest.length + 2 ≤ steps) :
    ReadsValue floor cur v last → readValue steps floor cur.token = .ok (v.unnumbered, last)
  | .sequence opens itemsRead => by
    obtain ⟨steps, rfl⟩ := Nat.exists_eq_add_one.mpr (show 0 < steps by omega)
    have items := itemsRead.run steps (by omega)
    simp only [readValue, opens, items]
    rfl
  | .mapping notItem opens entriesRead => by
    obtain ⟨steps, rfl⟩ := Nat.exists_eq_add_one.mpr (show 0 < steps by omega)
    have entries := entriesRead.run steps (by omega)
    simp only [readValue, notItem, opens, entries]
    rfl
  | .plain notItem notEntry valueRead => by
    obtain ⟨steps, rfl⟩ := Nat.exists_eq_add_one.mpr (show 0 < steps by omega)
    simp only [readValue, notItem, notEntry, readPlainValue_run valueRead]
    rfl

theorem ReadsEntries.run {column : Nat} {cur last : Cursor} {entries : List Entry} (steps : Nat)
    (enough : 4 * cur.token.here.rest.length + 1 ≤ steps) :
    ReadsEntries column cur entries last →
      readEntries steps column cur.token = .ok (unnumberedEntries entries, last)
  | .last token keyRead valueRead next => by
    obtain ⟨steps, rfl⟩ := Nat.exists_eq_add_one.mpr (show 0 < steps by omega)
    rw [token] at enough ⊢
    have keyLength := readKey_length_lt keyRead
    dsimp only at enough keyLength
    have value := valueRead.run steps (by omega)
    simp only [readEntries, keyRead, value, next, bind, Except.bind]
    rfl
  | .more token keyRead valueRead next others => by
    obtain ⟨steps, rfl⟩ := Nat.exists_eq_add_one.mpr (show 0 < steps by omega)
    rw [token] at enough ⊢
    have keyLength := readKey_length_lt keyRead
    have valueLength := valueRead.takes.length_le
    dsimp only at enough keyLength
    have value := valueRead.run steps (by omega)
    have entries := others.run steps (Cursor.token_budget (by omega))
    simp only [readEntries, keyRead, value, next, entries, bind, Except.bind]
    rfl

theorem ReadsEntryValue.run {column : Nat} {cur last : Cursor} {v : Value} (steps : Nat)
    (enough : 4 * cur.rest.length + 3 ≤ steps) :
    ReadsEntryValue column cur v last → readEntryValue steps column cur = .ok (v.unnumbered, last)
  | .absent empty next => by
    obtain ⟨steps, rfl⟩ := Nat.exists_eq_add_one.mpr (show 0 < steps by omega)
    rw [readEntryValue, Value.unnumbered, empty]
    grind [Value.empty]
  | .inline more sameLine notItem notEntry valueRead => by
    obtain ⟨steps, rfl⟩ := Nat.exists_eq_add_one.mpr (show 0 < steps by omega)
    have value := readInlineValue_eq_ok.mpr ⟨notItem, notEntry, readPlainValue_run valueRead⟩
    simp [readEntryValue, more, sameLine, value]
  | .nested more newLine inside valueRead => by
    obtain ⟨steps, rfl⟩ := Nat.exists_eq_add_one.mpr (show 0 < steps by omega)
    have := cur.length_token_le
    have value := valueRead.run steps (by omega)
    simp [readEntryValue, more, newLine, inside, value]
  | .sequence more newLine level opens itemsRead => by
    obtain ⟨steps, rfl⟩ := Nat.exists_eq_add_one.mpr (show 0 < steps by omega)
    have := cur.length_token_le
    have items := itemsRead.run steps (by omega)
    simp [readEntryValue, more, newLine, level, opens, items, bind, Except.bind, Value.unnumbered,
      Sequence.unnumbered]

theorem ReadsItems.run {column : Nat} {cur last : Cursor} {items : List Item} (steps : Nat)
    (enough : 4 * cur.token.here.rest.length + 1 ≤ steps) :
    ReadsItems column cur items last →
      readItems steps column cur.token = .ok (unnumberedItems items, last)
  | .last token dash opens valueRead next => by
    obtain ⟨steps, rfl⟩ := Nat.exists_eq_add_one.mpr (show 0 < steps by omega)
    rw [token] at enough ⊢
    simp only [dash, List.length_cons] at enough
    have value := valueRead.run steps (by simp only [Cursor.rest_past]; omega)
    simp only [readItems, dash, List.drop_one, List.tail_cons, value, next, bind, Except.bind]
    rfl
  | .more token dash opens valueRead next others => by
    obtain ⟨steps, rfl⟩ := Nat.exists_eq_add_one.mpr (show 0 < steps by omega)
    rw [token] at enough ⊢
    have valueLength := valueRead.takes.length_le
    simp only [dash, List.length_cons, Cursor.rest_past] at enough valueLength
    have value := valueRead.run steps (by simp only [Cursor.rest_past]; omega)
    have items := others.run steps (Cursor.token_budget (by omega))
    simp only [readItems, dash, List.drop_one, List.tail_cons, value, next, items, bind,
      Except.bind]
    rfl

theorem ReadsItemValue.run {column : Nat} {cur last : Cursor} {v : Value} (steps : Nat)
    (enough : 4 * cur.rest.length + 3 ≤ steps) :
    ReadsItemValue column cur v last → readItemValue steps column cur = .ok (v.unnumbered, last)
  | .absent empty next => by
    obtain ⟨steps, rfl⟩ := Nat.exists_eq_add_one.mpr (show 0 < steps by omega)
    rw [readItemValue, Value.unnumbered, empty]
    grind [Value.empty]
  | .value more inside valueRead => by
    obtain ⟨steps, rfl⟩ := Nat.exists_eq_add_one.mpr (show 0 < steps by omega)
    have := cur.length_token_le
    have value := valueRead.run steps (by omega)
    rw [readItemValue, value]
    grind

end

theorem ReadsBody.run {cur last : Cursor} {v : Value} (h : ReadsBody cur v last) :
    readBody cur = .ok (v.unnumbered, last) := by
  unfold readBody
  cases h with
  | absent empty ends =>
    rw [Value.unnumbered, empty]
    simp [ends, Value.empty]
  | value more valueRead =>
    have value := valueRead.run (stepBudget cur.token.here.rest) (by unfold stepBudget; omega)
    simp [more, value]

theorem ReadsDocument.run {cur last : Cursor} {d : Document} (h : ReadsDocument cur d last) :
    readDocument cur = .ok (d.unnumbered, last) := by
  cases h with
  | document start lead explicitStart bodyRead ending =>
    simp only [readDocument, start, bodyRead.run, ending, bind, Except.bind, ← lead,
      ← explicitStart]
    rfl

theorem ReadsPlainValue.length_lt {floor : Nat} {cur last : Cursor} {v : Value}
    (h : ReadsPlainValue floor cur v last) : last.rest.length < cur.token.here.rest.length := by
  cases h with
  | flow _ valueRead => exact valueRead.length_lt
  | block indicator opening read =>
    obtain ⟨taken, nonempty, -, -⟩ := readBlockScalar_takes indicator opening read
    exact taken.length_lt nonempty
  | scalar _ read => exact readScalar_length_lt read

theorem ReadsItems.length_lt {column : Nat} {cur last : Cursor} {items : List Item}
    (h : ReadsItems column cur items last) : last.rest.length < cur.token.here.rest.length := by
  cases h with
  | last token dash _ valueRead _ =>
    have inside := valueRead.takes.length_le
    rw [token, dash]
    exact Nat.lt_succ_of_le inside
  | more token dash _ valueRead _ others =>
    have inside := valueRead.takes.length_le
    rw [token, dash]
    exact Nat.lt_succ_of_le (Nat.le_trans others.takes.length_le inside)

theorem ReadsEntries.length_lt {column : Nat} {cur last : Cursor} {entries : List Entry}
    (h : ReadsEntries column cur entries last) :
    last.rest.length < cur.token.here.rest.length := by
  cases h with
  | last token keyRead valueRead _ =>
    have key := readKey_length_lt keyRead
    have inside := valueRead.takes.length_le
    rw [token]
    omega
  | more token keyRead valueRead _ others =>
    have key := readKey_length_lt keyRead
    have inside := valueRead.takes.length_le
    have after := others.takes.length_le
    rw [token]
    omega

theorem ReadsValue.length_lt {floor : Nat} {cur last : Cursor} {v : Value}
    (h : ReadsValue floor cur v last) : last.rest.length < cur.token.here.rest.length := by
  cases h with
  | sequence _ itemsRead => exact itemsRead.length_lt
  | mapping _ _ entriesRead => exact entriesRead.length_lt
  | plain _ _ valueRead => exact valueRead.length_lt

/-- Only the last document of a stream may take nothing of the text. -/
theorem ReadsDocument.length_lt {cur last : Cursor} {d : Document} (h : ReadsDocument cur d last)
    (goesOn : last.token.atEnd = false) : last.rest.length < cur.rest.length := by
  obtain ⟨id, lead, explicitStart, body, tail, marked⟩ := d
  cases h with
  | document start sameLead sameStart bodyRead ending =>
    rename_i afterStart afterBody opening
    dsimp only at bodyRead ending
    have opened := readDocumentStart_takes start
    have inside := bodyRead.takes.length_le
    have closed := readDocumentEnd_takes ending
    cases opening with
    | some lead =>
      have before := opened.length_lt (by simp)
      have after := closed.length_le
      omega
    | none =>
      cases bodyRead with
      | value _ valueRead =>
        have before := opened.length_le
        have body := valueRead.length_lt
        have token := afterStart.length_token_le
        have after := closed.length_le
        omega
      | absent _ ends =>
        -- The text does not end here and no document starts, so the end is marked.
        obtain ⟨-, same, -⟩ | ⟨notStart, -, rfl⟩ := readDocumentStart_eq.mp start
        · contradiction
        · obtain ⟨-, ⟨marked, -, -⟩ | ⟨-, notEnd, -, rfl⟩⟩ := readDocumentEnd_eq_ok.mp ending
          · rw [marked] at closed
            exact closed.length_lt (by simp)
          · rw [Cursor.token_token] at goesOn
            simp only [Token.endsDocument, Token.atMarker, notStart, notEnd, Bool.or_false] at ends
            exact Bool.noConfusion (ends.symm.trans goesOn)

theorem ReadsDocuments.run {cur : Cursor} {ds : List Document} {trailer : Text}
    (h : ReadsDocuments cur ds trailer) (steps : Nat) (enough : cur.rest.length < steps) :
    readDocuments steps cur = .ok (ds.map Document.unnumbered, trailer) := by
  induction h generalizing steps with
  | last documentRead ends =>
    obtain ⟨steps, rfl⟩ := Nat.exists_eq_add_one.mpr (show 0 < steps by omega)
    simp only [readDocuments, documentRead.run, ends, bind, Except.bind]
    rfl
  | more documentRead goesOn others ih =>
    obtain ⟨steps, rfl⟩ := Nat.exists_eq_add_one.mpr (show 0 < steps by omega)
    have shorter := documentRead.length_lt goesOn
    have others := ih steps (by omega)
    simp only [readDocuments, documentRead.run, goesOn, others, bind, Except.bind]
    rfl

/-- A stream that can be read by the rules is parsed, and the result is the stream up
to identity. -/
theorem parse_of_readsStream {text : Text} {s : Stream} (h : ReadsStream text s) :
    ∃ parsed, parse text = .ok parsed ∧ parsed.unnumbered = s.unnumbered := by
  have run := ReadsDocuments.run h (stepBudget text)
    (by simp only [Cursor.rest_start, stepBudget]; omega)
  refine ⟨s.unnumbered.numbered, ?_, ?_⟩
  · simp only [parse, readStream, run, bind, Except.bind]
    rfl
  · rw [Stream.unnumbered_numbered, Stream.unnumbered_unnumbered]

end Yaml

end ConfigTree
