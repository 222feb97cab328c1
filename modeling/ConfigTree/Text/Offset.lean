import ConfigTree.Text.Utf8

/-!
Byte offsets in a text, and slices between two of them. A slice exists where its ends are in order,
within the text and between characters.
-/

namespace ConfigTree.Text

/-- The number of bytes. -/
def size (t : Text) : Nat := (utf8 t).length

@[simp] theorem size_nil : size [] = 0 := rfl

@[simp] theorem size_cons (c : Char) (t : Text) : size (c :: t) = c.utf8Size + size t := by
  rw [size, utf8_cons, List.length_append, String.length_utf8EncodeChar, size]

@[simp] theorem size_append (s t : Text) : size (s ++ t) = size s + size t := by
  rw [size, utf8_append, List.length_append, size, size]

theorem size_pos {t : Text} (h : t ≠ []) : 0 < size t := by
  obtain ⟨c, t, rfl⟩ := List.exists_cons_of_ne_nil h
  rw [size_cons]
  exact Nat.lt_of_lt_of_le c.utf8Size_pos (Nat.le_add_right _ _)

/-- The cut behind the first `n` bytes, if the text is that long and the cut falls between
characters. -/
def cutAtOffset (n : Nat) : Text → Option (Text × Text)
  | [] => if n = 0 then some ([], []) else none
  | c :: cs =>
    if n = 0 then some ([], c :: cs)
    else if n < c.utf8Size then none
    else (cutAtOffset (n - c.utf8Size) cs).map fun (front, rest) => (c :: front, rest)

/-- The text between two byte offsets. -/
def slice? (start stop : Nat) (t : Text) : Option Text :=
  (cutAtOffset stop t).bind fun (front, _) => (cutAtOffset start front).map Prod.snd

/-- There is a cut between any two texts. -/
theorem cutAtOffset_append (front rest : Text) :
    cutAtOffset (size front) (front ++ rest) = some (front, rest) := by
  induction front with
  | nil => cases rest <;> rfl
  | cons c front ih =>
    have more : c.utf8Size + size front ≠ 0 := Nat.ne_of_gt (Nat.add_pos_left c.utf8Size_pos _)
    rw [List.cons_append, cutAtOffset, size_cons, if_neg more, if_neg (by omega),
      Nat.add_sub_cancel_left, ih]
    rfl

theorem eq_of_cutAtOffset {n : Nat} {t front rest : Text}
    (h : cutAtOffset n t = some (front, rest)) : t = front ++ rest ∧ n = size front := by
  induction t generalizing n front with
  | nil =>
    unfold cutAtOffset at h
    split at h
    · cases h
      exact ⟨rfl, by assumption⟩
    · contradiction
  | cons c t ih =>
    unfold cutAtOffset at h
    split at h
    · cases h
      exact ⟨rfl, by assumption⟩
    · split at h
      · contradiction
      · obtain ⟨⟨front, rest⟩, cut, same⟩ := Option.map_eq_some_iff.mp h
        cases same
        obtain ⟨rfl, size⟩ := ih cut
        exact ⟨rfl, by rw [size_cons]; omega⟩

/-- A slice exists between two offsets where the text divides there. -/
theorem slice?_eq_some {start stop : Nat} {t middle : Text} :
    slice? start stop t = some middle ↔
      ∃ front rest, t = front ++ middle ++ rest ∧ start = size front ∧
        stop = size (front ++ middle) := by
  constructor
  · intro h
    obtain ⟨⟨whole, rest⟩, cut, h⟩ := Option.bind_eq_some_iff.mp h
    obtain ⟨⟨front, middle⟩, cut', rfl⟩ := Option.map_eq_some_iff.mp h
    obtain ⟨rfl, stop⟩ := eq_of_cutAtOffset cut
    obtain ⟨rfl, start⟩ := eq_of_cutAtOffset cut'
    exact ⟨front, rest, rfl, start, stop⟩
  · rintro ⟨front, rest, rfl, rfl, rfl⟩
    rw [slice?, cutAtOffset_append, Option.bind_some]
    dsimp only
    rw [cutAtOffset_append, Option.map_some]

end ConfigTree.Text
