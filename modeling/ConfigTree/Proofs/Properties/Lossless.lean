import ConfigTree.Properties.Parse

/-!
# Properties files keep every character

Every text is a properties file and prints as that file. What is not part of a comment, a key, a
delimiter or a value is blanks and line ends, and a key has no delimiter and no blank that is not
escaped. Both follow what the scanners take: each cuts the text in front of it in two, and each
round of reading takes at least one character.
-/

namespace ConfigTree.Properties

/-- A part of a key as written: what a backslash escapes, or a character that stands for itself. -/
inductive KeyPart where
  | escape (escaped : Text)
  | single (c : Char)
deriving DecidableEq, Repr

/-- The parts of a key from left to right. A line break of two characters is escaped as a whole. -/
def keyParts : Text → List KeyPart
  | [] => []
  | '\\' :: '\r' :: '\n' :: cs => .escape ['\r', '\n'] :: keyParts cs
  | '\\' :: c :: cs => .escape [c] :: keyParts cs
  | c :: cs => .single c :: keyParts cs

theorem scanKey_slash : scanKey ['\\'] = (['\\'], []) := rfl

theorem scanKey_lineBreak (cs : Text) :
    scanKey ('\\' :: '\r' :: '\n' :: cs) =
      ('\\' :: '\r' :: '\n' :: (scanKey cs).1, (scanKey cs).2) := rfl

theorem scanKey_escape {c : Char} {cs : Text}
    (notBoth : ∀ ds, c = '\r' → cs = '\n' :: ds → False) :
    scanKey ('\\' :: c :: cs) = ('\\' :: c :: (scanKey cs).1, (scanKey cs).2) := by
  rw [scanKey]
  exact notBoth

theorem scanKey_stop {c : Char} (stops : isSpace c = true ∨ c = '=' ∨ c = ':') (cs : Text) :
    scanKey (c :: cs) = ([], c :: cs) := by
  rw [scanKey]
  · exact if_pos stops
  · rintro _ rfl -
    simp [isSpace, isBlank, isLineEnd] at stops
  · rintro _ _ rfl -
    simp [isSpace, isBlank, isLineEnd] at stops

theorem scanKey_cons {c : Char} (notSlash : c ≠ '\\')
    (goesOn : ¬ (isSpace c = true ∨ c = '=' ∨ c = ':')) (cs : Text) :
    scanKey (c :: cs) = (c :: (scanKey cs).1, (scanKey cs).2) := by
  rw [scanKey]
  · exact if_neg goesOn
  · exact fun _ same _ => notSlash same
  · exact fun _ _ same _ => notSlash same

/-- A text as keys are scanned in it. Only at the end does a backslash escape nothing. -/
@[elab_as_elim]
theorem scanKey_induction {P : Text → Prop} (nil : P []) (last : P ['\\'])
    (lineBreak : ∀ cs, P cs → P ('\\' :: '\r' :: '\n' :: cs))
    (escape : ∀ c cs, (∀ ds, c = '\r' → cs = '\n' :: ds → False) → P cs → P ('\\' :: c :: cs))
    (stop : ∀ c cs, isSpace c = true ∨ c = '=' ∨ c = ':' → P (c :: cs))
    (solid : ∀ c cs, c ≠ '\\' → ¬ (isSpace c = true ∨ c = '=' ∨ c = ':') → P cs → P (c :: cs))
    (t : Text) : P t := by
  fun_induction scanKey t with
  | case1 => exact nil
  | case2 cs key rest found ih => exact lineBreak cs ih
  | case3 c cs notBoth key rest found ih => exact escape c cs notBoth ih
  | case4 c cs _ _ stops => exact stop c cs stops
  | case5 c cs _ escapesNothing goesOn key rest found ih =>
    by_cases slash : c = '\\'
    · subst slash
      cases cs with
      | nil => exact last
      | cons d ds => exact (escapesNothing d ds rfl rfl).elim
    · exact solid c cs slash goesOn ih

/-- No key begins with a line feed, so a key read by itself has the escapes that were scanned. -/
theorem head_scanKey (t : Text) : (scanKey t).1.head? ≠ some '\n' := by
  fun_cases scanKey t with
  | case5 c cs _ _ solid =>
    rintro ⟨⟩
    simp [isSpace, isLineEnd] at solid
  | _ => simp

theorem notBoth_scanKey {c : Char} (cs : Text) :
    ∀ ds, c = '\r' → (scanKey cs).1 = '\n' :: ds → False :=
  fun _ _ same => head_scanKey cs (by rw [same]; rfl)

/-- What stands for itself in a key is neither a blank nor a line end nor a delimiter. -/
theorem single_of_scanKey {t : Text} {c : Char} (h : .single c ∈ keyParts (scanKey t).1) :
    isSpace c = false ∧ c ≠ '=' ∧ c ≠ ':' := by
  induction t using scanKey_induction with
  | nil => contradiction
  | last =>
    obtain same := List.mem_singleton.mp h
    cases same
    decide
  | lineBreak cs ih =>
    rw [scanKey_lineBreak] at h
    exact ih (by simpa [keyParts] using h)
  | escape d cs notBoth ih =>
    have parts : keyParts ('\\' :: d :: (scanKey cs).1) =
        .escape [d] :: keyParts (scanKey cs).1 := by
      rw [keyParts]
      exact notBoth_scanKey cs
    rw [scanKey_escape notBoth, parts] at h
    exact ih (by simpa using h)
  | stop d cs stops =>
    rw [scanKey_stop stops] at h
    contradiction
  | solid d cs notSlash goesOn ih =>
    have parts : keyParts (d :: (scanKey cs).1) = .single d :: keyParts (scanKey cs).1 := by
      rw [keyParts] <;> simp [notSlash]
    rw [scanKey_cons notSlash goesOn, parts] at h
    rcases List.mem_cons.mp h with same | inside
    · cases same
      simpa using goesOn
    · exact ih inside

theorem scanKey_append (t : Text) : (scanKey t).1 ++ (scanKey t).2 = t := by
  fun_induction scanKey t <;> simp_all

theorem scanValue_append (escaped : Bool) (t : Text) :
    (scanValue escaped t).1 ++ (scanValue escaped t).2 = t := by
  fun_induction scanValue escaped t <;> simp_all

theorem scanDelimiter_append (t : Text) :
    (scanDelimiter t).1.written ++ (scanDelimiter t).2 = t := by
  fun_cases scanDelimiter t <;> rfl

/-! ## Entries and comments -/

/-- The pieces of content one after the other, as printed. -/
def contentPrint (cs : List Content) : Text := Piece.print (cs.flatMap Content.pieces)

@[simp] theorem contentPrint_nil : contentPrint [] = [] := rfl

@[simp] theorem contentPrint_cons (c : Content) (cs : List Content) :
    contentPrint (c :: cs) = Piece.print c.pieces ++ contentPrint cs := by
  simp [contentPrint]

theorem File.print_eq (f : File) : f.print = contentPrint f.content ++ f.tail := by
  simp [File.print, File.pieces, contentPrint]

/-- The cuts that give an entry, each in what the one before it leaves. -/
structure EntryCuts (t afterKey afterGap afterDelimiter valueText : Text) (e : Entry)
    (rest : Text) : Prop where
  key : scanKey t = (e.key, afterKey)
  gap : Text.span isBlank afterKey = (e.gap, afterGap)
  delimiter : scanDelimiter afterGap = (e.delimiter, afterDelimiter)
  valueLead : (if e.delimiter = .none then ([], afterDelimiter)
    else Text.span isBlank afterDelimiter) = (e.value.lead, valueText)
  value : scanValue false valueText = (e.value.text, rest)
  unmarked : e.value.mark = none

theorem readEntry_cuts (lead t : Text) :
    (readEntry lead t).1.lead = lead ∧ ∃ afterKey afterGap afterDelimiter valueText,
      EntryCuts t afterKey afterGap afterDelimiter valueText (readEntry lead t).1
        (readEntry lead t).2 :=
  ⟨rfl, _, _, _, _, rfl, rfl, rfl, rfl, rfl, rfl⟩

theorem EntryCuts.append {t afterKey afterGap afterDelimiter valueText rest : Text} {e : Entry}
    (h : EntryCuts t afterKey afterGap afterDelimiter valueText e rest) :
    Piece.print (Content.entry e).pieces ++ rest = e.lead ++ t := by
  have key := scanKey_append t
  have gap := Text.span_append isBlank afterKey
  have delimiter := scanDelimiter_append afterGap
  have value := scanValue_append false valueText
  have valueLead : e.value.lead ++ valueText = afterDelimiter := by
    have cut := h.valueLead
    split at cut
    · obtain ⟨lead, text⟩ := Prod.mk.inj cut
      rw [← lead, ← text, List.nil_append]
    · have whole := Text.span_append isBlank afterDelimiter
      rwa [cut] at whole
  rw [h.key] at key
  rw [h.gap] at gap
  rw [h.delimiter] at delimiter
  rw [h.value] at value
  simp [Content.pieces, Value.pieces, h.unmarked, value, valueLead, delimiter, gap, key]

/-- An entry and what is left after it are the text it was read from. -/
theorem readEntry_append (lead t : Text) :
    Piece.print (Content.entry (readEntry lead t).1).pieces ++ (readEntry lead t).2 = lead ++ t := by
  obtain ⟨same, _, _, _, _, cuts⟩ := readEntry_cuts lead t
  rw [cuts.append, same]

theorem written_eq_nil {d : Delimiter} (h : d.written = []) : d = .none := by
  cases d <;> first | rfl | contradiction

/-- A key is empty in front of a delimiter only. -/
theorem scanKey_eq_nil {c : Char} (solid : isSpace c = false) {cs rest : Text}
    (h : scanKey (c :: cs) = ([], rest)) : (c = '=' ∨ c = ':') ∧ rest = c :: cs := by
  unfold scanKey at h
  split at h
  · contradiction
  · cases h
  · cases h
  · rename_i d ds _ _ same
    obtain ⟨rfl, rfl⟩ := List.cons.inj same
    split at h
    · rename_i stops
      exact ⟨by simpa [solid] using stops, (Prod.mk.inj h).2.symm⟩
    · cases h

/-- An entry that begins with a solid character has a key or a delimiter. -/
theorem readEntry_length_lt (lead : Text) {c : Char} (solid : isSpace c = false) (cs : Text) :
    (readEntry lead (c :: cs)).2.length < (c :: cs).length := by
  obtain ⟨same, afterKey, afterGap, afterDelimiter, _, cuts⟩ := readEntry_cuts lead (c :: cs)
  have whole := congrArg List.length cuts.append
  generalize (readEntry lead (c :: cs)).1 = e at *
  generalize (readEntry lead (c :: cs)).2 = rest at *
  have taken : e.key ++ e.delimiter.written ≠ [] := by
    intro nothing
    obtain ⟨noKey, noDelimiter⟩ := List.append_eq_nil_iff.mp nothing
    have key := cuts.key
    rw [noKey] at key
    obtain ⟨delimits, rfl⟩ := scanKey_eq_nil solid key
    have delimiter := cuts.delimiter
    rw [← (Prod.mk.inj cuts.gap).2] at delimiter
    rcases delimits with rfl | rfl
    · cases (Prod.mk.inj delimiter).1.trans (written_eq_nil noDelimiter)
    · cases (Prod.mk.inj delimiter).1.trans (written_eq_nil noDelimiter)
  have := List.length_pos_iff.mpr taken
  simp only [Content.pieces, Value.pieces, cuts.unmarked] at whole
  simp at whole this ⊢
  omega

theorem readComment_append (lead : Text) (sign : Char) (t : Text) :
    Piece.print (Content.comment (readComment lead sign t).1).pieces ++ (readComment lead sign t).2 =
      lead ++ sign :: t := by
  simp [readComment, Content.pieces]

/-- What holds of an entry that was read: only blanks and line ends stand before it, its key escapes
what would end it, and only blanks stand around its delimiter. -/
structure Entry.Clean (e : Entry) : Prop where
  lead : ∀ c ∈ e.lead, isSpace c = true
  key : ∀ c, .single c ∈ keyParts e.key → isSpace c = false ∧ c ≠ '=' ∧ c ≠ ':'
  gap : ∀ c ∈ e.gap, isBlank c = true
  valueLead : ∀ c ∈ e.value.lead, isBlank c = true

/-- What holds of a comment that was read: only blanks and line ends stand before it, and it is on
one line. -/
structure Comment.Clean (c : Comment) : Prop where
  lead : ∀ d ∈ c.lead, isSpace d = true
  message : ∀ d ∈ c.message, isLineEnd d = false

def Content.Clean : Content → Prop
  | entry e => e.Clean
  | comment c => c.Clean

theorem readEntry_clean {lead : Text} (space : ∀ c ∈ lead, isSpace c = true) (t : Text) :
    (readEntry lead t).1.Clean := by
  obtain ⟨same, afterKey, _, afterDelimiter, _, cuts⟩ := readEntry_cuts lead t
  generalize (readEntry lead t).1 = e at *
  refine ⟨same ▸ space, ?_, ?_, ?_⟩
  · intro c inside
    refine single_of_scanKey (t := t) ?_
    rwa [cuts.key]
  · rw [← (Prod.mk.inj cuts.gap).1]
    exact fun c inside => List.all_eq_true.mp List.all_takeWhile c inside
  · have cut := cuts.valueLead
    split at cut
    · rw [← (Prod.mk.inj cut).1]
      simp
    · rw [← (Prod.mk.inj cut).1]
      exact fun c inside => List.all_eq_true.mp List.all_takeWhile c inside

theorem readComment_clean {lead : Text} (space : ∀ c ∈ lead, isSpace c = true) (sign : Char)
    (t : Text) : (readComment lead sign t).1.Clean := by
  refine ⟨space, ?_⟩
  intro c inside
  simpa using List.all_eq_true.mp List.all_takeWhile c inside

/-- The piece of content that begins with `c` after `lead`, and the rest. -/
def readPiece (lead : Text) (c : Char) (cs : Text) : Content × Text :=
  if c = '#' ∨ c = '!' then
    (.comment (readComment lead c cs).1, (readComment lead c cs).2)
  else (.entry (readEntry lead (c :: cs)).1, (readEntry lead (c :: cs)).2)

theorem readContent_of_blank (steps : Nat) {t lead : Text}
    (h : Text.span isSpace t = (lead, [])) : readContent (steps + 1) t = ([], lead) := by
  simp only [readContent, h]

theorem readContent_of_solid (steps : Nat) {t lead : Text} {c : Char} {cs : Text}
    (h : Text.span isSpace t = (lead, c :: cs)) :
    readContent (steps + 1) t =
      ((readPiece lead c cs).1 :: (readContent steps (readPiece lead c cs).2).1,
        (readContent steps (readPiece lead c cs).2).2) := by
  simp only [readContent, h]
  unfold readPiece
  split <;> rfl

theorem readPiece_append (lead : Text) (c : Char) (cs : Text) :
    Piece.print (readPiece lead c cs).1.pieces ++ (readPiece lead c cs).2 = lead ++ c :: cs := by
  unfold readPiece
  split
  · exact readComment_append lead c cs
  · exact readEntry_append lead (c :: cs)

theorem readPiece_clean {lead : Text} (space : ∀ c ∈ lead, isSpace c = true) (c : Char)
    (cs : Text) : (readPiece lead c cs).1.Clean := by
  unfold readPiece
  split
  · exact readComment_clean space c cs
  · exact readEntry_clean space (c :: cs)

/-- Every round takes a character at least. -/
theorem readPiece_length_lt (lead : Text) {c : Char} (solid : isSpace c = false) (cs : Text) :
    (readPiece lead c cs).2.length < (c :: cs).length := by
  unfold readPiece
  split
  · exact Nat.lt_succ_of_le (List.dropWhile_suffix _).length_le
  · exact readEntry_length_lt lead solid cs

/-- The cut behind the blanks and line ends in front. -/
theorem span_isSpace (t : Text) :
    (∃ lead, Text.span isSpace t = (lead, []) ∧ t = lead ∧ ∀ c ∈ lead, isSpace c = true) ∨
      ∃ lead c cs, Text.span isSpace t = (lead, c :: cs) ∧ t = lead ++ c :: cs ∧
        isSpace c = false ∧ ∀ c ∈ lead, isSpace c = true := by
  have whole := Text.span_append isSpace t
  have space : ∀ c ∈ (Text.span isSpace t).1, isSpace c = true :=
    List.all_eq_true.mp List.all_takeWhile
  cases cut : Text.span isSpace t with | mk lead rest => ?_
  rw [cut] at whole space
  cases rest with
  | nil => exact .inl ⟨lead, rfl, by simpa using whole.symm, space⟩
  | cons c cs =>
    have solid : isSpace c = false := by
      have head := List.head?_dropWhile_not isSpace t
      rw [show t.dropWhile isSpace = c :: cs from (Prod.mk.inj cut).2] at head
      simpa using head
    exact .inr ⟨lead, c, cs, rfl, whole.symm, solid, space⟩

/-- No character is lost, whether there are enough steps or not. -/
theorem readContent_append (steps : Nat) (t : Text) :
    contentPrint (readContent steps t).1 ++ (readContent steps t).2 = t := by
  induction steps generalizing t with
  | zero => rfl
  | succ steps ih =>
    obtain ⟨lead, cut, rfl, -⟩ | ⟨lead, c, cs, cut, rfl, -, -⟩ := span_isSpace t
    · rw [readContent_of_blank steps cut]
      rfl
    · rw [readContent_of_solid steps cut, contentPrint_cons, List.append_assoc, ih,
        readPiece_append]

theorem readContent_clean (steps : Nat) (t : Text) : ∀ c ∈ (readContent steps t).1, c.Clean := by
  induction steps generalizing t with
  | zero => simp [readContent]
  | succ steps ih =>
    obtain ⟨lead, cut, -, -⟩ | ⟨lead, c, cs, cut, -, -, space⟩ := span_isSpace t
    · rw [readContent_of_blank steps cut]
      simp
    · rw [readContent_of_solid steps cut]
      exact List.forall_mem_cons.mpr ⟨readPiece_clean space c cs, ih _⟩

theorem readContent_nil (steps : Nat) : readContent steps [] = ([], []) := by
  cases steps <;> rfl

/-- With a step for each character, reading goes on to the end of the text: what is left is blanks
and line ends, and more steps change nothing. -/
theorem readContent_of_enough {steps more : Nat} {t : Text} (enough : t.length ≤ steps)
    (stillEnough : t.length ≤ more) :
    readContent more t = readContent steps t ∧
      ∀ c ∈ (readContent steps t).2, isSpace c = true := by
  induction steps generalizing more t with
  | zero =>
    obtain rfl := List.length_eq_zero_iff.mp (Nat.le_zero.mp enough)
    simp [readContent_nil]
  | succ steps ih =>
    obtain ⟨lead, cut, rfl, space⟩ | ⟨lead, c, cs, cut, rfl, solid, space⟩ := span_isSpace t
    · rw [readContent_of_blank steps cut]
      refine ⟨?_, space⟩
      cases more with
      | zero =>
        obtain rfl := List.length_eq_zero_iff.mp (Nat.le_zero.mp stillEnough)
        rfl
      | succ more => exact readContent_of_blank more cut
    · have shorter := readPiece_length_lt lead solid cs
      simp only [List.length_append, List.length_cons] at enough stillEnough shorter
      obtain ⟨more, rfl⟩ := Nat.exists_eq_add_of_lt (show 0 < more by omega)
      rw [Nat.zero_add] at stillEnough ⊢
      have left : (readPiece lead c cs).2.length ≤ steps := by omega
      have stillLeft : (readPiece lead c cs).2.length ≤ more := by omega
      obtain ⟨same, tail⟩ := ih left stillLeft
      rw [readContent_of_solid steps cut, readContent_of_solid more cut, same]
      exact ⟨rfl, tail⟩

theorem contentPrint_numbered (n : Nat) (cs : List Content) :
    contentPrint (numberedContent n cs) = contentPrint cs := by
  fun_induction numberedContent n cs with
  | case1 => rfl
  | case2 n c cs ih => simp [ih, Content.pieces]
  | case3 n e cs ih =>
    cases marked : e.value.mark <;> simp [ih, Content.pieces, Value.pieces, marked]

theorem clean_numbered (n : Nat) {cs : List Content} (h : ∀ c ∈ cs, c.Clean) :
    ∀ c ∈ numberedContent n cs, c.Clean := by
  fun_induction numberedContent n cs with
  | case1 => exact h
  | case2 n c cs ih =>
    obtain ⟨first, others⟩ := List.forall_mem_cons.mp h
    exact List.forall_mem_cons.mpr ⟨⟨first.lead, first.message⟩, ih others⟩
  | case3 n e cs ih =>
    obtain ⟨first, others⟩ := List.forall_mem_cons.mp h
    exact List.forall_mem_cons.mpr
      ⟨⟨first.lead, first.key, first.gap, first.valueLead⟩, ih others⟩

/-- Every text is a properties file: one step for each character suffices to read it, it prints as
it was, and all that stands outside of keys, values, comments and delimiters is blanks and line
ends. -/
theorem parse_lossless (text : Text) :
    (∀ more, readContent (text.length + more) text = readContent text.length text) ∧
      (parse text).print = text ∧ (∀ c ∈ (parse text).content, c.Clean) ∧
      ∀ c ∈ (parse text).tail, isSpace c = true := by
  have enough : text.length ≤ text.length := Nat.le_refl _
  refine ⟨?_, ?_, ?_, ?_⟩
  · intro more
    exact (readContent_of_enough enough (Nat.le_add_right _ more)).1
  · rw [File.print_eq]
    exact (congrArg (· ++ _) (contentPrint_numbered 1 _)).trans (readContent_append _ text)
  · exact clean_numbered 1 (readContent_clean _ text)
  · exact (readContent_of_enough enough enough).2

/-- A comment, a key continued on the next line, a value continued after an escaped backslash, a
line that begins with its delimiter, and a backslash at the end. -/
def continuedText : Text := "! c\r\n a\\\r\nb\\=c \t: d\\\\\\\n e\r\x0c\n=v\nk\\".toList

theorem parse_lossless_continuedText :
    ∃ e, Content.entry e ∈ (parse continuedText).content ∧ e.key = "a\\\r\nb\\=c".toList ∧
      (parse continuedText).content.length = 4 ∧ (parse continuedText).print = continuedText ∧
      e.Clean := by
  obtain ⟨-, printed, clean, -⟩ := parse_lossless continuedText
  let e : Entry := ⟨⟨2, 0⟩, "\r\n ".toList, "a\\\r\nb\\=c".toList, " \t".toList, .colon,
    ⟨⟨3, 0⟩, " ".toList, "d\\\\\\\n e".toList, none⟩⟩
  have inside : Content.entry e ∈ (parse continuedText).content := by decide +kernel
  exact ⟨e, inside, rfl, by decide +kernel, printed, clean _ inside⟩

end ConfigTree.Properties
