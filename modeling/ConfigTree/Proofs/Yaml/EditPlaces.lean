import ConfigTree.Proofs.Yaml.EditedDocuments
import ConfigTree.Proofs.Yaml.Identity

/-!
# Places of edits

A scalar is replaced in a stream by a visitor that knows it by its identity. Where the scalar stands
in a block collection, exactly one place changes: the edited stream is the stream before with the
new scalar there, and behind the place stands what stood there before.
-/

namespace ConfigTree.Yaml

variable {old new : Scalar}

mutual

/-- The second value is the first with `new` in the place of `old` at one place in a block
collection inside, and `after` is what stands behind that place in the first. -/
inductive Value.EditsAt (old new : Scalar) : Text → Value → Value → Prop where
  | mapping {after : Text} {id id' : NodeId} {es es' : List Entry}
      (entries : EntriesEditsAt old new after es es') :
      Value.EditsAt old new after (.mapping ⟨id, .block, es⟩) (.mapping ⟨id', .block, es'⟩)
  | sequence {after : Text} {id id' : NodeId} {is is' : List Item}
      (items : ItemsEditsAt old new after is is') :
      Value.EditsAt old new after (.sequence ⟨id, .block, is⟩) (.sequence ⟨id', .block, is'⟩)

/-- The same for a value that stands in a block collection itself. -/
inductive SlotEditsAt (old new : Scalar) : Text → Value → Value → Prop where
  | inside {after : Text} {v v' : Value} (edit : Value.EditsAt old new after v v') :
      SlotEditsAt old new after v v'
  | replaced : SlotEditsAt old new [] (.scalar old) (.scalar new)

inductive EntriesEditsAt (old new : Scalar) : Text → List Entry → List Entry → Prop where
  | here {after lead gap : Text} {id id' : NodeId} {key : Scalar} {value value' : Value}
      {es : List Entry} (edit : SlotEditsAt old new after value value') :
      EntriesEditsAt old new (after ++ entriesPrint es) (⟨id, lead, key, gap, value, none⟩ :: es)
        (⟨id', lead, key, gap, value', none⟩ :: es)
  | later {after : Text} {e : Entry} {es es' : List Entry}
      (edit : EntriesEditsAt old new after es es') :
      EntriesEditsAt old new after (e :: es) (e :: es')

inductive ItemsEditsAt (old new : Scalar) : Text → List Item → List Item → Prop where
  | here {after lead : Text} {dash : Bool} {id id' : NodeId} {value value' : Value} {is : List Item}
      (edit : SlotEditsAt old new after value value') :
      ItemsEditsAt old new (after ++ itemsPrint is) (⟨id, lead, dash, value, none⟩ :: is)
        (⟨id', lead, dash, value', none⟩ :: is)
  | later {after : Text} {i : Item} {is is' : List Item}
      (edit : ItemsEditsAt old new after is is') :
      ItemsEditsAt old new after (i :: is) (i :: is')

end

/-- The second list of documents is the first with an edit at one place in one of the bodies. -/
inductive DocumentsEditsAt (old new : Scalar) : Text → List Document → List Document → Prop where
  | here {after : Text} {d d' : Document} {ds : List Document} (lead : d'.lead = d.lead)
      (explicitStart : d'.explicitStart = d.explicitStart) (tail : d'.tail = d.tail)
      (explicitEnd : d'.explicitEnd = d.explicitEnd)
      (body : Value.EditsAt old new after d.body d'.body) :
      DocumentsEditsAt old new (after ++ d.endText ++ documentsPrint ds) (d :: ds) (d' :: ds)
  | later {after : Text} {d : Document} {ds ds' : List Document}
      (edit : DocumentsEditsAt old new after ds ds') :
      DocumentsEditsAt old new after (d :: ds) (d :: ds')

mutual

theorem Value.EditsAt.edits {rest after : Text} {v v' : Value}
    (edit : Value.EditsAt old new after v v')
    (keeps : KeepsColumn old new (after ++ rest)) : Value.Edits old new rest v v' := by
  cases edit with
  | mapping entries => exact .mapping (entries.edits keeps)
  | sequence items => exact .sequence (items.edits keeps)

theorem SlotEditsAt.edits {rest after : Text} {v v' : Value} (edit : SlotEditsAt old new after v v')
    (keeps : KeepsColumn old new (after ++ rest)) : SlotEdits old new rest v v' := by
  cases edit with
  | inside edit => exact .inside (edit.edits keeps)
  | replaced => exact .replaced keeps

theorem EntriesEditsAt.edits {rest after : Text} {es es' : List Entry}
    (edit : EntriesEditsAt old new after es es') (keeps : KeepsColumn old new (after ++ rest)) :
    EntriesEdits old new rest es es' := by
  cases edit with
  | here edit =>
    rw [List.append_assoc] at keeps
    exact .cons (edit.edits keeps) (.refl _)
  | @later _ e _ _ edit =>
    obtain ⟨id, lead, key, gap, value, comma⟩ := e
    exact .cons (.inside (.same value)) (edit.edits keeps)

theorem ItemsEditsAt.edits {rest after : Text} {is is' : List Item}
    (edit : ItemsEditsAt old new after is is') (keeps : KeepsColumn old new (after ++ rest)) :
    ItemsEdits old new rest is is' := by
  cases edit with
  | here edit =>
    rw [List.append_assoc] at keeps
    exact .cons (edit.edits keeps) (.refl _)
  | @later _ i _ _ edit =>
    obtain ⟨id, lead, dash, value, comma⟩ := i
    exact .cons (.inside (.same value)) (edit.edits keeps)

end

theorem DocumentsEditsAt.edits {trailer after : Text} {ds ds' : List Document}
    (edit : DocumentsEditsAt old new after ds ds')
    (keeps : KeepsColumn old new (after ++ trailer)) :
    DocumentsEdits old new trailer ds ds' := by
  induction edit with
  | here lead explicitStart tail explicitEnd body =>
    rw [List.append_assoc, List.append_assoc] at keeps
    exact .here ⟨lead, explicitStart, body.edits keeps, tail, explicitEnd⟩
  | later edit ih => exact .later (ih keeps)

mutual

/-- An edit at one place replaces one scalar in the list of all scalars. -/
theorem Value.EditsAt.scalars_eq {after : Text} {v v' : Value} (path : List Text) :
    Value.EditsAt old new after v v' →
      ∃ keys before behind, v.scalars path = before ++ (keys, old) :: behind ∧
        v'.scalars path = before ++ (keys, new) :: behind
  | .mapping entries => entries.scalars_eq path
  | .sequence items => items.scalars_eq path

theorem SlotEditsAt.scalars_eq {after : Text} {v v' : Value} (path : List Text) :
    SlotEditsAt old new after v v' →
      ∃ keys before behind, v.scalars path = before ++ (keys, old) :: behind ∧
        v'.scalars path = before ++ (keys, new) :: behind
  | .inside edit => edit.scalars_eq path
  | .replaced => ⟨path, [], [], rfl, rfl⟩

theorem EntriesEditsAt.scalars_eq {after : Text} {es es' : List Entry} (path : List Text) :
    EntriesEditsAt old new after es es' →
      ∃ keys before behind, entriesScalars path es = before ++ (keys, old) :: behind ∧
        entriesScalars path es' = before ++ (keys, new) :: behind
  | @EntriesEditsAt.here _ _ _ _ _ _ _ key _ _ es edit => by
    obtain ⟨keys, before, behind, found, found'⟩ := edit.scalars_eq (path ++ [key.text])
    refine ⟨keys, (path ++ [key.text], key) :: before, behind ++ entriesScalars path es, ?_, ?_⟩
    · simp [entriesScalars, Entry.scalars, found]
    · simp [entriesScalars, Entry.scalars, found']
  | @EntriesEditsAt.later _ _ _ e _ _ edit => by
    obtain ⟨keys, before, behind, found, found'⟩ := edit.scalars_eq path
    refine ⟨keys, e.scalars path ++ before, behind, ?_, ?_⟩
    · rw [entriesScalars, found, List.append_assoc]
    · rw [entriesScalars, found', List.append_assoc]

theorem ItemsEditsAt.scalars_eq {after : Text} {is is' : List Item} (path : List Text) :
    ItemsEditsAt old new after is is' →
      ∃ keys before behind, itemsScalars path is = before ++ (keys, old) :: behind ∧
        itemsScalars path is' = before ++ (keys, new) :: behind
  | @ItemsEditsAt.here _ _ _ _ _ _ _ _ _ is edit => by
    obtain ⟨keys, before, behind, found, found'⟩ := edit.scalars_eq path
    refine ⟨keys, before, behind ++ itemsScalars path is, ?_, ?_⟩
    · simp [itemsScalars, Item.scalars, found]
    · simp [itemsScalars, Item.scalars, found']
  | @ItemsEditsAt.later _ _ _ i _ _ edit => by
    obtain ⟨keys, before, behind, found, found'⟩ := edit.scalars_eq path
    refine ⟨keys, i.scalars path ++ before, behind, ?_, ?_⟩
    · rw [itemsScalars, found, List.append_assoc]
    · rw [itemsScalars, found', List.append_assoc]

end

theorem DocumentsEditsAt.scalars_eq {after : Text} {ds ds' : List Document}
    (edit : DocumentsEditsAt old new after ds ds') :
    ∃ keys before behind,
      (ds.flatMap fun d => d.body.scalars []) = before ++ (keys, old) :: behind ∧
      (ds'.flatMap fun d => d.body.scalars []) = before ++ (keys, new) :: behind := by
  induction edit with
  | @here _ _ _ ds lead explicitStart tail explicitEnd body =>
    obtain ⟨keys, before, behind, found, found'⟩ := body.scalars_eq []
    refine ⟨keys, before, behind ++ ds.flatMap fun d => d.body.scalars [], ?_, ?_⟩
    · rw [List.flatMap_cons, found, List.append_assoc, List.cons_append]
    · rw [List.flatMap_cons, found', List.append_assoc, List.cons_append]
  | @later _ d _ _ edit ih =>
    obtain ⟨keys, before, behind, found, found'⟩ := ih
    refine ⟨keys, d.body.scalars [] ++ before, behind, ?_, ?_⟩
    · rw [List.flatMap_cons, found, List.append_assoc]
    · rw [List.flatMap_cons, found', List.append_assoc]

end ConfigTree.Yaml
