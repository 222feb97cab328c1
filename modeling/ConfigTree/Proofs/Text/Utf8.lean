import ConfigTree.Text.Utf8

/-!
# Bytes of characters

The UTF-8 form of a character begins with a byte that no other place in a character has. So where
the bytes of a character stand among those of a text, the character stands in the text.
-/

namespace ConfigTree.Text

variable {c d : Char} {bs bs' : List UInt8} {t t' : Text}

theorem utf8EncodeChar_append_inj
    (same : String.utf8EncodeChar c ++ bs = String.utf8EncodeChar d ++ bs') : c = d ∧ bs = bs' := by
  have decoded := congrArg (fun bytes : List UInt8 => bytes.toByteArray.utf8DecodeChar? 0) same
  simp only [List.toByteArray_append, ByteArray.utf8DecodeChar?_utf8EncodeChar_append,
    Option.some.injEq] at decoded
  subst decoded
  exact ⟨rfl, List.append_cancel_left same⟩

theorem isUTF8FirstByte_getElem_utf8EncodeChar {i : Nat}
    (inside : i < (String.utf8EncodeChar c).length) :
    (String.utf8EncodeChar c)[i].IsUTF8FirstByte ↔ i = 0 := by
  have bytes : [c].utf8Encode = (String.utf8EncodeChar c).toByteArray := List.utf8Encode_singleton
  have inside' : i < [c].utf8Encode.size := by rwa [bytes, List.size_toByteArray]
  have place : [c].utf8Encode[i].IsUTF8FirstByte ↔ i = 0 :=
    List.isUTF8FirstByte_getElem_utf8Encode_singleton
  simpa only [bytes, List.getElem_toByteArray] using place

/-- No character begins inside another. -/
theorem eq_nil_of_isUTF8FirstByte {b : UInt8} (begins : b.IsUTF8FirstByte)
    (inside : String.utf8EncodeChar c = bs ++ b :: bs') : bs = [] := by
  have within : bs.length < (String.utf8EncodeChar c).length := by
    rw [inside]
    simp
  have place : (String.utf8EncodeChar c)[bs.length] = b := by
    simp [inside]
  rw [← place, isUTF8FirstByte_getElem_utf8EncodeChar] at begins
  exact List.eq_nil_of_length_eq_zero begins

theorem exists_utf8EncodeChar_eq_cons (c : Char) :
    ∃ b bs, String.utf8EncodeChar c = b :: bs ∧ b.IsUTF8FirstByte := by
  obtain ⟨b, bs, bytes⟩ := List.exists_cons_of_ne_nil (String.utf8EncodeChar_ne_nil (c := c))
  have begins := UInt8.isUTF8FirstByte_getElem_zero_utf8EncodeChar (c := c)
  simp only [bytes, List.getElem_cons_zero] at begins
  exact ⟨b, bs, bytes, begins⟩

/-- The byte of a character of one byte is in no other character. -/
theorem eq_of_mem_utf8EncodeChar {b : UInt8} (single : String.utf8EncodeChar d = [b])
    (inside : b ∈ String.utf8EncodeChar c) : c = d := by
  obtain ⟨b', bs, bytes, begins⟩ := exists_utf8EncodeChar_eq_cons d
  obtain ⟨rfl, rfl⟩ := List.cons.inj (bytes.symm.trans single)
  obtain ⟨before, after, bytes⟩ := List.append_of_mem inside
  obtain rfl := eq_nil_of_isUTF8FirstByte begins bytes
  have same : String.utf8EncodeChar c ++ [] = String.utf8EncodeChar d ++ after := by
    rw [List.append_nil, bytes, single, List.nil_append, List.singleton_append]
  exact (utf8EncodeChar_append_inj same).1

theorem utf8_eq_nil_iff : utf8 t = [] ↔ t = [] := by
  cases t with
  | nil => simp
  | cons c t => simp [String.utf8EncodeChar_ne_nil]

/-- Where the bytes of a character stand among those of a text, the text is cut at characters. -/
theorem exists_of_utf8_eq_append (same : utf8 t = bs ++ (String.utf8EncodeChar c ++ bs')) :
    ∃ before after, t = before ++ c :: after ∧ utf8 before = bs ∧ utf8 after = bs' := by
  induction t generalizing bs with
  | nil =>
    have empty := (List.append_eq_nil_iff.mp same.symm).2
    exact absurd (List.append_eq_nil_iff.mp empty).1 String.utf8EncodeChar_ne_nil
  | cons d t ih =>
    rw [utf8_cons] at same
    rcases List.append_eq_append_iff.mp same with ⟨inner, rfl, rest⟩ | ⟨inner, own, rest⟩
    · -- The bytes `bs` go beyond the first character.
      obtain ⟨before, after, rfl, rfl, rfl⟩ := ih rest
      exact ⟨d :: before, after, rfl, rfl, rfl⟩
    · cases inner with
      | nil =>
        -- They are those of the first character.
        obtain ⟨before, after, rfl, empty, rfl⟩ := @ih [] rest.symm
        obtain rfl := utf8_eq_nil_iff.mp empty
        exact ⟨[d], after, rfl, by simpa using own, rfl⟩
      | cons first inner =>
        -- They end in the first character, so there are none of them.
        obtain ⟨b, others, bytes, begins⟩ := exists_utf8EncodeChar_eq_cons c
        have same : b = first := by
          rw [bytes] at rest
          exact (List.cons.inj rest).1
        obtain rfl := eq_nil_of_isUTF8FirstByte begins (same ▸ own)
        rw [← List.nil_append (first :: inner), ← own] at rest
        obtain ⟨rfl, rfl⟩ := utf8EncodeChar_append_inj rest
        exact ⟨[], t, rfl, rfl, rfl⟩

end ConfigTree.Text
