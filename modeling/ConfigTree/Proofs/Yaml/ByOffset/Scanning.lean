import ConfigTree.Proofs.Text.Cutting
import ConfigTree.Yaml.ByOffset

/-!
# Scanning bytes

Scanning the bytes of a text gives the size of what scanning the text takes. All that the scanners
look for are characters of one byte, and a byte of a longer character is none of these: so a scanner
that has come into the middle of a character, as behind a backslash, comes out again at its end.
-/

namespace ConfigTree.Yaml.ByOffset

/-- Bytes that are not characters by themselves. -/
def Wide (bs : List UInt8) : Prop := ∀ b ∈ bs, ascii? b = none

theorem ascii?_ofNat_toNat {c : Char} (small : c.toNat ≤ 127) :
    ascii? (UInt8.ofNat c.toNat) = some c := by
  have value : (UInt8.ofNat c.toNat).toNat = c.toNat :=
    UInt8.toNat_ofNat_of_lt' (show c.toNat < 256 by omega)
  have below : UInt8.ofNat c.toNat < 128 := by
    rw [UInt8.lt_iff_toNat_lt, value]
    exact Nat.lt_succ_of_le small
  rw [ascii?, if_pos below, Option.some_inj]
  exact Char.toNat_inj.mp value

theorem ascii?_ofNat_eq_none {n : Nat} (large : 128 ≤ n) (inByte : n < 256) :
    ascii? (UInt8.ofNat n) = none := by
  have above : ¬ UInt8.ofNat n < 128 := by
    rw [UInt8.lt_iff_toNat_lt, UInt8.toNat_ofNat_of_lt' inByte]
    exact Nat.not_lt_of_le large
  rw [ascii?, if_neg above]

/-- A character is one byte, which stands for it, or has only bytes that stand for none. -/
theorem utf8EncodeChar_cases (c : Char) :
    (∃ b, String.utf8EncodeChar c = [b] ∧ ascii? b = some c) ∨
      Wide (String.utf8EncodeChar c) ∧ 128 ≤ c.toNat := by
  by_cases small : c.toNat ≤ 127
  · refine .inl ⟨UInt8.ofNat c.toNat, ?_, ascii?_ofNat_toNat small⟩
    exact if_pos small
  · refine .inr ⟨?_, by omega⟩
    intro b inside
    unfold String.utf8EncodeChar at inside
    have notOne : ¬ c.val.toNat ≤ 127 := small
    simp only [if_neg notOne] at inside
    split at inside
    · simp only [List.mem_cons, List.not_mem_nil, or_false] at inside
      rcases inside with rfl | rfl <;> exact ascii?_ofNat_eq_none (by omega) (by omega)
    · split at inside
      · simp only [List.mem_cons, List.not_mem_nil, or_false] at inside
        rcases inside with rfl | rfl | rfl <;> exact ascii?_ofNat_eq_none (by omega) (by omega)
      · simp only [List.mem_cons, List.not_mem_nil, or_false] at inside
        rcases inside with rfl | rfl | rfl | rfl <;>
          exact ascii?_ofNat_eq_none (by omega) (by omega)

theorem utf8Size_eq_one {b : UInt8} {c : Char} (bytes : String.utf8EncodeChar c = [b]) :
    c.utf8Size = 1 := by
  rw [← String.length_utf8EncodeChar, bytes, List.length_singleton]

theorem isBlank_of_wide {c : Char} (wide : 128 ≤ c.toNat) : isBlank c = false := by
  apply eq_false_of_ne_true
  intro blank
  simp only [isBlank, Bool.or_eq_true, beq_iff_eq] at blank
  rcases blank with ((rfl | rfl) | rfl) | rfl <;> contradiction

theorem isInlineBlank_of_wide {c : Char} (wide : 128 ≤ c.toNat) : isInlineBlank c = false := by
  apply eq_false_of_ne_true
  intro blank
  simp only [isInlineBlank, Bool.or_eq_true, beq_iff_eq] at blank
  rcases blank with rfl | rfl <;> contradiction

theorem isFlowIndicator_of_wide {c : Char} (wide : 128 ≤ c.toNat) : isFlowIndicator c = false := by
  apply eq_false_of_ne_true
  intro indicator
  simp only [isFlowIndicator, Bool.or_eq_true, beq_iff_eq] at indicator
  rcases indicator with (((rfl | rfl) | rfl) | rfl) | rfl <;> contradiction

theorem ne_of_wide {c d : Char} (wide : 128 ≤ c.toNat) (narrow : d.toNat < 128) : c ≠ d := by
  rintro rfl
  omega

theorem isBlankByte_of_ascii {b : UInt8} {c : Char} (h : ascii? b = some c) :
    isBlankByte b = isBlank c := by
  rw [isBlankByte, h, Option.any_some]

theorem isBlankByte_of_none {b : UInt8} (h : ascii? b = none) : isBlankByte b = false := by
  rw [isBlankByte, h, Option.any_none]

/-- Every byte of a character is as blank as the character. -/
theorem isBlankByte_of_mem {b : UInt8} {c : Char} (inside : b ∈ String.utf8EncodeChar c) :
    isBlankByte b = isBlank c := by
  rcases utf8EncodeChar_cases c with ⟨b', bytes, same⟩ | ⟨wide, large⟩
  · rw [bytes] at inside
    rw [List.mem_singleton.mp inside, isBlankByte_of_ascii same]
  · rw [isBlankByte_of_none (wide b inside), isBlank_of_wide large]

theorem utf8EncodeChar_ne_nil (c : Char) : String.utf8EncodeChar c ≠ [] := by
  intro empty
  have size := String.length_utf8EncodeChar c
  rw [empty, List.length_nil] at size
  exact absurd size.symm (Nat.ne_of_gt c.utf8Size_pos)

/-- Within a comment nothing but a line feed counts. -/
theorem skipTrivia_wide {bs : List UInt8} (wide : Wide bs) (nonempty : bs ≠ []) (mayOpen : Bool)
    (rest : List UInt8) :
    skipTrivia mayOpen true (bs ++ rest) =
      (bs.length + (skipTrivia false true rest).1, (skipTrivia false true rest).2) := by
  induction bs generalizing mayOpen with
  | nil => contradiction
  | cons b bs ih =>
    obtain ⟨first, wide⟩ := List.forall_mem_cons.mp wide
    rw [List.cons_append, skipTrivia, first, if_neg (by simp), if_pos (.inl rfl),
      isBlankByte_of_none first]
    cases bs with
    | nil => simp [Nat.add_comm]
    | cons b' bs =>
      rw [ih wide (List.cons_ne_nil _ _)]
      simp [Nat.add_right_comm]

/-- Skipping bytes goes as far as the trivia of the text. -/
theorem skipTrivia_utf8 (mayOpen inComment : Bool) (t : Text) :
    skipTrivia mayOpen inComment (Text.utf8 t) =
      ((trivia mayOpen inComment t).1.size, (trivia mayOpen inComment t).1.contains '\n') := by
  induction t generalizing mayOpen inComment with
  | nil => rfl
  | cons c t ih =>
    rw [Text.utf8_cons]
    rcases utf8EncodeChar_cases c with ⟨b, bytes, same⟩ | ⟨wide, large⟩
    · have one := utf8Size_eq_one bytes
      rw [bytes, List.singleton_append, skipTrivia, trivia, same, isBlankByte_of_ascii same]
      simp only [Option.some_inj, ih]
      by_cases lineFeed : c = '\n'
      · subst lineFeed
        cases inComment <;> simp [isBlank, one, Nat.add_comm]
      · have lineFeed' : '\n' ≠ c := Ne.symm lineFeed
        by_cases hash : c = '#'
        · subst hash
          cases inComment <;> cases mayOpen <;> simp [isBlank, one, Nat.add_comm]
        · cases inComment <;> cases isBlank c <;>
            simp [lineFeed, lineFeed', hash, one, Nat.add_comm]
    · have notLineFeed : c ≠ '\n' := ne_of_wide large (by decide)
      cases inComment with
      | true =>
        rw [skipTrivia_wide wide (utf8EncodeChar_ne_nil c), ih, trivia, if_pos rfl,
          isBlank_of_wide large, String.length_utf8EncodeChar]
        simp [notLineFeed, Ne.symm notLineFeed]
      | false =>
        -- The first byte is significant already.
        obtain ⟨b, bs, bytes⟩ := List.exists_cons_of_ne_nil (utf8EncodeChar_ne_nil c)
        have first := wide b (bytes ▸ List.mem_cons_self)
        have notHash : c ≠ '#' := ne_of_wide large (by decide)
        rw [bytes, List.cons_append, skipTrivia, trivia, first, isBlankByte_of_none first]
        simp [isBlank_of_wide large, notHash]

theorem colonEndsBytes_utf8 (inFlow : Bool) (t : Text) :
    colonEndsBytes inFlow (Text.utf8 t) = colonEnds inFlow t := by
  cases t with
  | nil => rfl
  | cons c t =>
    rw [Text.utf8_cons, colonEnds]
    rcases utf8EncodeChar_cases c with ⟨b, bytes, same⟩ | ⟨wide, large⟩
    · rw [bytes, List.singleton_append, colonEndsBytes, isBlankByte_of_ascii same, same,
        Option.any_some]
    · obtain ⟨b, bs, bytes⟩ := List.exists_cons_of_ne_nil (utf8EncodeChar_ne_nil c)
      have first := wide b (bytes ▸ List.mem_cons_self)
      rw [bytes, List.cons_append, colonEndsBytes, isBlankByte_of_none first, first,
        Option.any_none, isBlank_of_wide large, isFlowIndicator_of_wide large]

/-- A longer character goes into a plain scalar, whatever stands before it. -/
theorem plainEnd_wide {bs : List UInt8} (wide : Wide bs) (nonempty : bs ≠ [])
    (inFlow afterBlank : Bool) (offset stop : Nat) (rest : List UInt8) :
    plainEnd inFlow afterBlank offset stop (bs ++ rest) =
      plainEnd inFlow false (offset + bs.length) (offset + bs.length) rest := by
  induction bs generalizing afterBlank offset stop with
  | nil => contradiction
  | cons b bs ih =>
    obtain ⟨first, wide⟩ := List.forall_mem_cons.mp wide
    rw [List.cons_append, plainEnd, isBlankByte_of_none first]
    simp only [first, reduceCtorEq, or_self, false_and, if_false, Option.any_none, and_false,
      Bool.false_eq_true]
    cases bs with
    | nil => rfl
    | cons b' bs =>
      rw [ih wide (List.cons_ne_nil _ _), Nat.add_assoc, Nat.add_comm 1, ← List.length_cons]

/-- Scanning bytes ends behind the plain scalar of the text, or stays where it is if there
is none. -/
theorem plainEnd_utf8 (inFlow afterBlank : Bool) (offset stop : Nat) (t : Text) :
    plainEnd inFlow afterBlank offset stop (Text.utf8 t) =
      if Text.trimEndWhile isInlineBlank (plainRun inFlow afterBlank t) = [] then stop
      else offset + (Text.trimEndWhile isInlineBlank (plainRun inFlow afterBlank t)).size := by
  induction t generalizing afterBlank offset stop with
  | nil => rfl
  | cons c t ih =>
    rw [Text.utf8_cons, plainRun]
    rcases utf8EncodeChar_cases c with ⟨b, bytes, same⟩ | ⟨wide, large⟩
    · have one := utf8Size_eq_one bytes
      rw [bytes, List.singleton_append, plainEnd, isBlankByte_of_ascii same, same]
      simp only [Option.some_inj, Option.any_some, colonEndsBytes_utf8, ih]
      by_cases lineEnd : c = '\n' ∨ c = '\r'
      · simp [lineEnd, Text.trimEndWhile]
      by_cases colon : c = ':' ∧ colonEnds inFlow t = true
      · simp [colon, Text.trimEndWhile]
      by_cases comment : c = '#' ∧ afterBlank = true
      · simp [comment, Text.trimEndWhile]
      by_cases indicator : inFlow = true ∧ isFlowIndicator c = true
      · simp [lineEnd, comment, indicator, Text.trimEndWhile]
      simp only [lineEnd, colon, comment, indicator, if_false, Text.trimEndWhile_cons]
      by_cases more : Text.trimEndWhile isInlineBlank (plainRun inFlow (isBlank c) t) = []
      · by_cases blank : isInlineBlank c = true <;> simp [more, blank, one]
      · simp [more, one, Nat.add_assoc]
    · have notLineFeed : c ≠ '\n' := ne_of_wide large (by decide)
      have notReturn : c ≠ '\r' := ne_of_wide large (by decide)
      have notColon : c ≠ ':' := ne_of_wide large (by decide)
      have notHash : c ≠ '#' := ne_of_wide large (by decide)
      rw [plainEnd_wide wide (utf8EncodeChar_ne_nil c), ih, isBlank_of_wide large,
        isFlowIndicator_of_wide large, String.length_utf8EncodeChar]
      simp only [notLineFeed, notReturn, notColon, notHash, or_self, false_and, if_false, and_false,
        Bool.false_eq_true, Text.trimEndWhile_cons, isInlineBlank_of_wide large]
      by_cases more : Text.trimEndWhile isInlineBlank (plainRun inFlow false t) = []
      · simp [more]
      · simp [more, Nat.add_assoc]

/-! ## Quoted scalars -/

theorem singleQuotedEnd_cons {b : UInt8} (other : ascii? b ≠ some '\'') (offset : Nat)
    (bs : List UInt8) : singleQuotedEnd offset (b :: bs) = singleQuotedEnd (offset + 1) bs := by
  cases bs with
  | nil => simp [singleQuotedEnd, other]
  | cons b' bs => rw [singleQuotedEnd, if_neg other]

theorem doubleQuotedEnd_cons {b : UInt8} (other : ascii? b ≠ some '\\')
    (notQuote : ascii? b ≠ some '"') (offset : Nat) (bs : List UInt8) :
    doubleQuotedEnd offset (b :: bs) = doubleQuotedEnd (offset + 1) bs := by
  cases bs with
  | nil => simp [doubleQuotedEnd, notQuote]
  | cons b' bs => rw [doubleQuotedEnd, if_neg other, if_neg notQuote]

/-- The bytes of a longer character, or what is left of them, close no quote. -/
theorem singleQuotedEnd_wide {bs : List UInt8} (wide : Wide bs) (offset : Nat) (rest : List UInt8) :
    singleQuotedEnd offset (bs ++ rest) = singleQuotedEnd (offset + bs.length) rest := by
  induction bs generalizing offset with
  | nil => rfl
  | cons b bs ih =>
    obtain ⟨first, wide⟩ := List.forall_mem_cons.mp wide
    rw [List.cons_append, singleQuotedEnd_cons (by simp [first]), ih wide, List.length_cons,
      Nat.add_assoc, Nat.add_comm 1]

theorem doubleQuotedEnd_wide {bs : List UInt8} (wide : Wide bs) (offset : Nat) (rest : List UInt8) :
    doubleQuotedEnd offset (bs ++ rest) = doubleQuotedEnd (offset + bs.length) rest := by
  induction bs generalizing offset with
  | nil => rfl
  | cons b bs ih =>
    obtain ⟨first, wide⟩ := List.forall_mem_cons.mp wide
    rw [List.cons_append, doubleQuotedEnd_cons (by simp [first]) (by simp [first]), ih wide,
      List.length_cons, Nat.add_assoc, Nat.add_comm 1]

/-- The end of a quoted scalar that begins with `front`, from its end behind that. -/
theorem map_end_append (found : Option (Text × Text)) (offset : Nat) (front : Text) :
    ((found.map fun (text, rest) => (front ++ text, rest)).map
      fun (text, _) => offset + text.size + 1) =
      found.map fun (text, _) => offset + front.size + text.size + 1 := by
  cases found with
  | none => rfl
  | some found => simp [Nat.add_assoc]

theorem size_singleton (c : Char) : Text.size [c] = c.utf8Size := by simp

/-- Behind a quote that stands alone, whatever comes next is not another quote. -/
theorem singleQuotedEnd_quote {t : Text} (alone : ∀ cs, t ≠ '\'' :: cs) (offset : Nat) :
    singleQuotedEnd offset (39 :: Text.utf8 t) = some (offset + 1) := by
  cases t with
  | nil => rfl
  | cons c t =>
    have notQuote : c ≠ '\'' := fun quote => alone t (by rw [quote])
    rw [Text.utf8_cons]
    rcases utf8EncodeChar_cases c with ⟨b, bytes, same⟩ | ⟨wide, -⟩
    · rw [bytes, List.singleton_append, singleQuotedEnd, if_pos (by decide),
        if_neg (by simpa [same] using notQuote)]
    · obtain ⟨b, bs, bytes⟩ := List.exists_cons_of_ne_nil (utf8EncodeChar_ne_nil c)
      have first := wide b (bytes ▸ List.mem_cons_self)
      rw [bytes, List.cons_append, singleQuotedEnd, if_pos (by decide), if_neg (by simp [first])]

theorem singleQuotedEnd_utf8 (offset : Nat) (t : Text) :
    singleQuotedEnd offset (Text.utf8 t) =
      (scanSingleQuoted t).map fun (text, _) => offset + text.size + 1 := by
  fun_induction scanSingleQuoted t generalizing offset with
  | case1 => rfl
  | case2 cs ih =>
    have bytes : Text.utf8 ('\'' :: '\'' :: cs) = 39 :: 39 :: Text.utf8 cs := rfl
    rw [bytes, singleQuotedEnd, if_pos (by decide), if_pos (by decide), ih]
    exact (map_end_append _ offset ['\'', '\'']).symm
  | case3 cs alone =>
    have bytes : Text.utf8 ('\'' :: cs) = 39 :: Text.utf8 cs := rfl
    rw [bytes, singleQuotedEnd_quote (fun rest same => alone rest rfl same)]
    rfl
  | case4 c cs _ notQuote ih =>
    have end_cons := map_end_append (scanSingleQuoted cs) offset [c]
    rw [size_singleton, ← String.length_utf8EncodeChar] at end_cons
    rw [Text.utf8_cons]
    refine Eq.trans ?_ end_cons.symm
    rcases utf8EncodeChar_cases c with ⟨b, bytes, same⟩ | ⟨wide, -⟩
    · rw [bytes, List.singleton_append, singleQuotedEnd_cons (by simpa [same] using notQuote), ih]
      rfl
    · rw [singleQuotedEnd_wide wide, ih]

/-- A backslash takes at least the first byte of the next character with it, and the scan goes on
behind that character. -/
theorem doubleQuotedEnd_escape (c : Char) (offset : Nat) (rest : List UInt8) :
    doubleQuotedEnd offset (92 :: (String.utf8EncodeChar c ++ rest)) =
      doubleQuotedEnd (offset + 1 + c.utf8Size) rest := by
  rw [← String.length_utf8EncodeChar]
  rcases utf8EncodeChar_cases c with ⟨b, bytes, -⟩ | ⟨wide, -⟩
  · rw [bytes, List.singleton_append, doubleQuotedEnd, if_pos (by decide)]
    rfl
  · obtain ⟨b, bs, bytes⟩ := List.exists_cons_of_ne_nil (utf8EncodeChar_ne_nil c)
    rw [bytes] at wide
    rw [bytes, List.cons_append, doubleQuotedEnd, if_pos (by decide),
      doubleQuotedEnd_wide (List.forall_mem_cons.mp wide).2, List.length_cons]
    congr 1
    omega

theorem doubleQuotedEnd_utf8 (offset : Nat) (t : Text) :
    doubleQuotedEnd offset (Text.utf8 t) =
      (scanDoubleQuoted t).map fun (text, _) => offset + text.size + 1 := by
  fun_induction scanDoubleQuoted t generalizing offset with
  | case1 => rfl
  | case2 c cs ih =>
    have end_cons := map_end_append (scanDoubleQuoted cs) offset ['\\', c]
    have bytes : Text.utf8 ('\\' :: c :: cs) =
        92 :: (String.utf8EncodeChar c ++ Text.utf8 cs) := rfl
    have size : offset + Text.size ['\\', c] = offset + 1 + c.utf8Size := by
      simp [Nat.add_assoc]
      rfl
    rw [size] at end_cons
    rw [bytes, doubleQuotedEnd_escape, ih]
    exact end_cons.symm
  | case3 cs last =>
    cases cs with
    | nil => rfl
    | cons d cs => exact absurd rfl (last d cs rfl)
  | case4 cs _ _ =>
    have bytes : Text.utf8 ('"' :: cs) = 34 :: Text.utf8 cs := rfl
    rw [bytes]
    cases Text.utf8 cs with
    | nil => rfl
    | cons b bs => rw [doubleQuotedEnd, if_neg (by decide), if_pos (by decide)]; rfl
  | case5 c cs _ notBackslash notQuote ih =>
    have end_cons := map_end_append (scanDoubleQuoted cs) offset [c]
    rw [size_singleton, ← String.length_utf8EncodeChar] at end_cons
    rw [Text.utf8_cons]
    refine Eq.trans ?_ end_cons.symm
    rcases utf8EncodeChar_cases c with ⟨b, bytes, same⟩ | ⟨wide, -⟩
    · rw [bytes, List.singleton_append, doubleQuotedEnd_cons (by simpa [same] using notBackslash)
        (by simpa [same] using notQuote), ih]
      rfl
    · rw [doubleQuotedEnd_wide wide, ih]

/-- A test of characters and one of bytes that agree take the same from a text. -/
theorem length_takeWhile_utf8 {p : Char → Bool} {q : UInt8 → Bool}
    (onAscii : ∀ b c, ascii? b = some c → q b = p c)
    (onWide : ∀ b c, ascii? b = none → 128 ≤ c.toNat → q b = p c) (t : Text) :
    ((Text.utf8 t).takeWhile q).length = Text.size (t.takeWhile p) := by
  induction t with
  | nil => rfl
  | cons c t ih =>
    rw [Text.utf8_cons, List.takeWhile_cons]
    rcases utf8EncodeChar_cases c with ⟨b, bytes, same⟩ | ⟨wide, large⟩
    · have one := utf8Size_eq_one bytes
      rw [bytes, List.singleton_append, List.takeWhile_cons, onAscii b c same]
      split
      · rw [List.length_cons, ih, Text.size_cons, one, Nat.add_comm]
      · rfl
    · split
      · rename_i holds
        have all : ∀ b ∈ String.utf8EncodeChar c, q b = true :=
          fun b inside => (onWide b c (wide b inside) large).trans holds
        rw [List.takeWhile_append_of_pos all, List.length_append, ih, Text.size_cons,
          String.length_utf8EncodeChar]
      · rename_i fails
        obtain ⟨b, bs, bytes⟩ := List.exists_cons_of_ne_nil (utf8EncodeChar_ne_nil c)
        have first := onWide b c (wide b (bytes ▸ List.mem_cons_self)) large
        rw [bytes, List.cons_append, List.takeWhile_cons, if_neg (first ▸ fails)]
        rfl

theorem lineLength_utf8 (t : Text) :
    lineLength (Text.utf8 t) = Text.size (t.takeWhile fun c => c ≠ '\n') := by
  refine length_takeWhile_utf8 ?_ ?_ t
  · intro b c same
    rw [same]
    simp
  · intro b c none large
    rw [none]
    simpa using ne_of_wide large (by decide)

theorem inlineBlanks_utf8 (t : Text) :
    inlineBlanks (Text.utf8 t) = Text.size (t.takeWhile isInlineBlank) := by
  refine length_takeWhile_utf8 ?_ ?_ t
  · intro b c same
    rw [same, Option.any_some]
  · intro b c none large
    rw [none, Option.any_none, isInlineBlank_of_wide large]

theorem lastLineStart_wide {bs : List UInt8} (wide : Wide bs) (offset start : Nat)
    (rest : List UInt8) :
    lastLineStart offset start (bs ++ rest) = lastLineStart (offset + bs.length) start rest := by
  induction bs generalizing offset with
  | nil => rfl
  | cons b bs ih =>
    obtain ⟨first, wide⟩ := List.forall_mem_cons.mp wide
    rw [List.cons_append, lastLineStart, if_neg (by simp [first]), ih wide, List.length_cons,
      Nat.add_assoc, Nat.add_comm 1]

/-- The column behind a text is the distance from the start of its last line. -/
theorem columnAfter_add_lastLineStart (column start : Nat) (t : Text) :
    columnAfter column t + lastLineStart (start + column) start (Text.utf8 t) =
      start + column + t.size := by
  induction t generalizing column start with
  | nil => exact Nat.add_comm _ _
  | cons c t ih =>
    rw [Text.utf8_cons, Text.size_cons, columnAfter]
    by_cases lineFeed : c = '\n'
    · subst lineFeed
      have next := ih 0 (start + column + 1)
      have bytes : String.utf8EncodeChar '\n' = [10] := rfl
      have one : '\n'.utf8Size = 1 := rfl
      rw [bytes, List.singleton_append, lastLineStart, if_pos rfl, if_pos (by decide), one,
        ← Nat.add_assoc]
      exact next
    · have next := ih (column + c.utf8Size) start
      rw [if_neg lineFeed, ← Nat.add_assoc, Nat.add_assoc start, ← next]
      rcases utf8EncodeChar_cases c with ⟨b, bytes, same⟩ | ⟨wide, -⟩
      · rw [← String.length_utf8EncodeChar, bytes, List.singleton_append, lastLineStart,
          if_neg (by simpa [same] using lineFeed)]
        rfl
      · rw [lastLineStart_wide wide, String.length_utf8EncodeChar, Nat.add_assoc]

end ConfigTree.Yaml.ByOffset
