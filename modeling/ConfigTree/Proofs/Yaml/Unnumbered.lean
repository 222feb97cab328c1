import ConfigTree.Yaml.Number

/-!
# Trees up to identity

Numbering is the last step of reading and the only one that gives nodes their identity. Here is
what it leaves alone: a tree without its numbers (`unnumbered`) is the tree that was read, and it
prints as the numbered one does. Two trees are the same up to identity when their unnumbered
forms are equal.
-/

namespace ConfigTree.Yaml

/-- The scalar without its number. -/
def Scalar.unnumbered (s : Scalar) : Scalar := { s with id := .unnumbered }

mutual

/-- The value with all its nodes unnumbered. -/
def Value.unnumbered : Value → Value
  | .scalar s => .scalar s.unnumbered
  | .mapping m => .mapping m.unnumbered
  | .sequence s => .sequence s.unnumbered

def Mapping.unnumbered : Mapping → Mapping
  | ⟨_, style, entries⟩ => ⟨.unnumbered, style, unnumberedEntries entries⟩

def unnumberedEntries : List Entry → List Entry
  | [] => []
  | e :: es => e.unnumbered :: unnumberedEntries es

def Entry.unnumbered : Entry → Entry
  | ⟨_, lead, key, gap, value, comma⟩ =>
    ⟨.unnumbered, lead, key.unnumbered, gap, value.unnumbered, comma⟩

def Sequence.unnumbered : Sequence → Sequence
  | ⟨_, style, items⟩ => ⟨.unnumbered, style, unnumberedItems items⟩

def unnumberedItems : List Item → List Item
  | [] => []
  | i :: is => i.unnumbered :: unnumberedItems is

def Item.unnumbered : Item → Item
  | ⟨_, lead, dash, value, comma⟩ => ⟨.unnumbered, lead, dash, value.unnumbered, comma⟩

end

def Document.unnumbered (d : Document) : Document :=
  { d with id := .unnumbered, body := d.body.unnumbered }

/-- The stream with all its nodes unnumbered. -/
def Stream.unnumbered (s : Stream) : Stream :=
  { s with id := .unnumbered, documents := s.documents.map Document.unnumbered }

mutual

theorem Value.unnumbered_unnumbered (v : Value) : v.unnumbered.unnumbered = v.unnumbered := by
  cases v with
  | scalar s => rfl
  | mapping m => exact congrArg Value.mapping m.unnumbered_unnumbered
  | sequence s => exact congrArg Value.sequence s.unnumbered_unnumbered

theorem Mapping.unnumbered_unnumbered (m : Mapping) : m.unnumbered.unnumbered = m.unnumbered := by
  obtain ⟨id, style, entries⟩ := m
  simp only [Mapping.unnumbered, unnumberedEntries_unnumbered entries]

theorem unnumberedEntries_unnumbered (es : List Entry) :
    unnumberedEntries (unnumberedEntries es) = unnumberedEntries es := by
  cases es with
  | nil => rfl
  | cons e es =>
    simp only [unnumberedEntries, e.unnumbered_unnumbered, unnumberedEntries_unnumbered es]

theorem Entry.unnumbered_unnumbered (e : Entry) : e.unnumbered.unnumbered = e.unnumbered := by
  obtain ⟨id, lead, key, gap, value, comma⟩ := e
  simp only [Entry.unnumbered, value.unnumbered_unnumbered]
  rfl

theorem Sequence.unnumbered_unnumbered (s : Sequence) : s.unnumbered.unnumbered = s.unnumbered := by
  obtain ⟨id, style, items⟩ := s
  simp only [Sequence.unnumbered, unnumberedItems_unnumbered items]

theorem unnumberedItems_unnumbered (is : List Item) :
    unnumberedItems (unnumberedItems is) = unnumberedItems is := by
  cases is with
  | nil => rfl
  | cons i is =>
    simp only [unnumberedItems, i.unnumbered_unnumbered, unnumberedItems_unnumbered is]

theorem Item.unnumbered_unnumbered (i : Item) : i.unnumbered.unnumbered = i.unnumbered := by
  obtain ⟨id, lead, dash, value, comma⟩ := i
  simp only [Item.unnumbered, value.unnumbered_unnumbered]

end

theorem Stream.unnumbered_unnumbered (s : Stream) : s.unnumbered.unnumbered = s.unnumbered := by
  simp only [Stream.unnumbered, List.map_map, Stream.mk.injEq, true_and, and_true]
  refine List.map_congr_left fun d _ => ?_
  simp only [Function.comp_apply, Document.unnumbered, d.body.unnumbered_unnumbered]

theorem Scalar.unnumbered_numbered (n : Nat) (s : Scalar) :
    (s.numbered n).1.unnumbered = s.unnumbered := rfl

mutual

theorem Value.unnumbered_numbered (n : Nat) (v : Value) :
    (v.numbered n).1.unnumbered = v.unnumbered := by
  cases v with
  | scalar s => rfl
  | mapping m => exact congrArg Value.mapping (Mapping.unnumbered_numbered n m)
  | sequence s => exact congrArg Value.sequence (Sequence.unnumbered_numbered n s)

theorem Mapping.unnumbered_numbered (n : Nat) (m : Mapping) :
    (m.numbered n).1.unnumbered = m.unnumbered := by
  obtain ⟨id, style, entries⟩ := m
  simp only [Mapping.numbered, Mapping.unnumbered, unnumberedEntries_numbered (n + 1) entries]

theorem unnumberedEntries_numbered (n : Nat) (es : List Entry) :
    unnumberedEntries (numberedEntries n es).1 = unnumberedEntries es := by
  cases es with
  | nil => rfl
  | cons e es =>
    simp only [numberedEntries, unnumberedEntries, Entry.unnumbered_numbered n e,
      unnumberedEntries_numbered _ es]

theorem Entry.unnumbered_numbered (n : Nat) (e : Entry) :
    (e.numbered n).1.unnumbered = e.unnumbered := by
  obtain ⟨id, lead, key, gap, value, comma⟩ := e
  simp only [Entry.numbered, Entry.unnumbered, Scalar.unnumbered_numbered,
    Value.unnumbered_numbered _ value]

theorem Sequence.unnumbered_numbered (n : Nat) (s : Sequence) :
    (s.numbered n).1.unnumbered = s.unnumbered := by
  obtain ⟨id, style, items⟩ := s
  simp only [Sequence.numbered, Sequence.unnumbered, unnumberedItems_numbered (n + 1) items]

theorem unnumberedItems_numbered (n : Nat) (is : List Item) :
    unnumberedItems (numberedItems n is).1 = unnumberedItems is := by
  cases is with
  | nil => rfl
  | cons i is =>
    simp only [numberedItems, unnumberedItems, Item.unnumbered_numbered n i,
      unnumberedItems_numbered _ is]

theorem Item.unnumbered_numbered (n : Nat) (i : Item) :
    (i.numbered n).1.unnumbered = i.unnumbered := by
  obtain ⟨id, lead, dash, value, comma⟩ := i
  simp only [Item.numbered, Item.unnumbered, Value.unnumbered_numbered _ value]

end

theorem Document.unnumbered_numbered (n : Nat) (d : Document) :
    (d.numbered n).1.unnumbered = d.unnumbered := by
  simp only [Document.numbered, Document.unnumbered, Value.unnumbered_numbered]

theorem unnumberedDocuments_numbered (n : Nat) (ds : List Document) :
    (numberedDocuments n ds).1.map Document.unnumbered = ds.map Document.unnumbered := by
  induction ds generalizing n with
  | nil => rfl
  | cons d ds ih => simp only [numberedDocuments, List.map_cons, Document.unnumbered_numbered, ih]

/-- Numbering changes nothing but the numbers. -/
theorem Stream.unnumbered_numbered (s : Stream) : s.numbered.unnumbered = s.unnumbered := by
  simp only [Stream.numbered, Stream.unnumbered, unnumberedDocuments_numbered]

/-- What is read is what `readStream` reads, up to identity. -/
theorem unnumbered_of_parse {text : Text} {s : Stream} (h : parse text = .ok s) :
    ∃ raw, readStream text = .ok raw ∧ s = raw.numbered ∧ s.unnumbered = raw.unnumbered := by
  unfold parse at h
  split at h
  · rename_i raw read
    injection h with h
    exact ⟨raw, read, h.symm, h ▸ raw.unnumbered_numbered⟩
  · contradiction

/-- A text is read as a stream of which `P` holds if evaluation says so. -/
theorem exists_parse {text : Text} {P : Stream → Prop} [DecidablePred P]
    (h : (parse text).toOption.any (fun s => decide (P s)) = true) :
    ∃ s, parse text = .ok s ∧ P s := by
  cases parsed : parse text with
  | error problem =>
    rw [parsed] at h
    contradiction
  | ok s =>
    rw [parsed] at h
    exact ⟨s, rfl, of_decide_eq_true h⟩

/-- A text is refused with the error that evaluation says. -/
theorem parse_eq_error {text : Text} {e : SyntaxError}
    (h : (match parse text with
      | .ok _ => none
      | .error e' => some e') = some e) : parse text = .error e := by
  cases parsed : parse text with
  | ok s =>
    rw [parsed] at h
    contradiction
  | error e' =>
    rw [parsed] at h
    exact congrArg Except.error (Option.some.inj h)

/-- A tree that looks like a mapping is one, and its parts look like the parts. -/
theorem Value.eq_mapping_of_unnumbered {v : Value} {m : Mapping}
    (h : v.unnumbered = .mapping m) : ∃ m', v = .mapping m' ∧ m'.unnumbered = m := by
  cases v with
  | mapping m' => exact ⟨m', rfl, Value.mapping.inj h⟩
  | scalar _ => cases h
  | sequence _ => cases h

theorem Value.eq_sequence_of_unnumbered {v : Value} {s : Sequence}
    (h : v.unnumbered = .sequence s) : ∃ s', v = .sequence s' ∧ s'.unnumbered = s := by
  cases v with
  | sequence s' => exact ⟨s', rfl, Value.sequence.inj h⟩
  | scalar _ => cases h
  | mapping _ => cases h

theorem Value.eq_scalar_of_unnumbered {v : Value} {s : Scalar}
    (h : v.unnumbered = .scalar s) : ∃ s', v = .scalar s' ∧ s'.unnumbered = s := by
  cases v with
  | scalar s' => exact ⟨s', rfl, Value.scalar.inj h⟩
  | mapping _ => cases h
  | sequence _ => cases h

end ConfigTree.Yaml
