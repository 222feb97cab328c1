import ConfigTree.Properties.Parse
import ConfigTree.Text.Lines
import Mathlib.Data.List.TakeWhile

/-!
# Logical lines of properties files

Loaders read properties files in two stages: natural lines are joined to logical lines first, and
each of these is cut into a key and a value. The first stage needs no lines: the text can be taken
character by character, and a continuation counts for nothing wherever it stands.
-/

namespace ConfigTree.Properties

/-- The lines of a text without their ends. -/
def naturalLines (t : Text) : List Text := (Text.lines t).map (Text.trimEndWhile isLineEnd)

/-- Whether the line is left out where a logical line could begin: it is blank or a comment. -/
def isIgnored (line : Text) : Bool :=
  match line.dropWhile isBlank with
  | [] => true
  | c :: _ => c == '#' || c == '!'

/-- Whether the line goes on in the next one: it ends in an odd number of backslashes. -/
def continues (line : Text) : Bool := (line.reverse.takeWhile (· = '\\')).length % 2 == 1

/-- The logical line so far with one more natural line, without the blanks in front of that. -/
def joinedTo (begun : Option Text) (line : Text) : Text :=
  match begun with
  | none => line
  | some front => front ++ line.dropWhile isBlank

/-- The logical lines of natural lines. `begun` is the logical line that goes on in the first of
them, if one does. -/
def logicalLines : (begun : Option Text) → List Text → List Text
  | begun, [] => begun.toList
  | begun, line :: lines =>
    if begun = none ∧ isIgnored line then logicalLines none lines
    else if continues line then logicalLines (some (joinedTo begun line).dropLast) lines
    else joinedTo begun line :: logicalLines none lines

/-- The key in front as written, and the rest. A backslash takes the next character with it. -/
def cutKey : Text → Text × Text
  | [] => ([], [])
  | '\\' :: c :: cs => let (key, rest) := cutKey cs; ('\\' :: c :: key, rest)
  | c :: cs =>
    if isBlank c ∨ c = '=' ∨ c = ':' then ([], c :: cs)
    else let (key, rest) := cutKey cs; (c :: key, rest)

/-- What is left behind the blanks in front, one delimiter at most, and blanks again. -/
def dropDelimiter (t : Text) : Text :=
  match t.dropWhile isBlank with
  | [] => []
  | c :: cs => if c = '=' ∨ c = ':' then cs.dropWhile isBlank else c :: cs

/-- The text with every backslash and the character behind it replaced by what they stand for. -/
def resolved : Text → Text
  | [] => []
  | ['\\'] => []
  | '\\' :: c :: cs => escaped c :: resolved cs
  | c :: cs => c :: resolved cs

/-- The key and the value in a logical line. -/
def loadLine (line : Text) : Text × Text :=
  let (key, rest) := cutKey (line.dropWhile isBlank)
  (resolved key, resolved (dropDelimiter rest))

/-- The keys and values that a loader reads from a text, in its order. Code points by number are
not among the escapes here. -/
def load (t : Text) : List (Text × Text) := (logicalLines none (naturalLines t)).map loadLine

/-- What is left behind the line end in front. -/
def dropLineEnd : Text → Text
  | '\r' :: '\n' :: cs => cs
  | t => t.drop 1

theorem dropLineEnd_cons {c : Char} {cs : Text}
    (notBoth : ∀ ds, c = '\r' → cs = '\n' :: ds → False) : dropLineEnd (c :: cs) = cs := by
  unfold dropLineEnd
  split
  · rename_i same
    cases same
    exact (notBoth _ rfl rfl).elim
  · rfl

/-- Nothing is left, or a line end. -/
def AtLineEnd (t : Text) : Prop := ∀ c ∈ t.head?, isLineEnd c = true

theorem linesFrom_append {line : Text} (solid : ∀ c ∈ line, isLineEnd c = false) (front tail : Text) :
    Text.linesFrom front (line ++ tail) = Text.linesFrom (line.reverse ++ front) tail := by
  induction line generalizing front with
  | nil => rfl
  | cons c line ih =>
    obtain ⟨first, others⟩ := List.forall_mem_cons.mp solid
    have step : Text.linesFrom front (c :: (line ++ tail)) =
        Text.linesFrom (c :: front) (line ++ tail) := by
      have notEnd : ¬ (c = '\n' ∨ c = '\r') := by simpa [isLineEnd] using first
      rw [Text.linesFrom, if_neg notEnd]
      rintro _ rfl -
      exact notEnd (.inr rfl)
    rw [List.cons_append, step, ih others]
    simp

theorem trimEndWhile_append {line : Text} (solid : ∀ c ∈ line, isLineEnd c = false)
    (ending : Text) (ends : ∀ c ∈ ending, isLineEnd c = true) :
    Text.trimEndWhile isLineEnd (line ++ ending) = line := by
  have dropped : (ending.reverse ++ line.reverse).dropWhile isLineEnd =
      line.reverse.dropWhile isLineEnd :=
    List.dropWhile_append_of_pos fun c inside => ends c (List.mem_reverse.mp inside)
  have kept : line.reverse.dropWhile isLineEnd = line.reverse := by
    cases reversed : line.reverse with
    | nil => rfl
    | cons c cs =>
      have inside : c ∈ line := by
        rw [← List.mem_reverse, reversed]
        exact List.mem_cons_self
      rw [List.dropWhile_cons_of_neg (by simp [solid c inside])]
  rw [Text.trimEndWhile, List.reverse_append, dropped, kept, List.reverse_reverse]

/-- The first line of a text and the lines behind its end. -/
theorem naturalLines_append {line tail : Text} (solid : ∀ c ∈ line, isLineEnd c = false)
    (ends : AtLineEnd tail) (nonempty : line ++ tail ≠ []) :
    naturalLines (line ++ tail) = line :: naturalLines (dropLineEnd tail) := by
  have first := linesFrom_append solid []
  rw [List.append_nil] at first
  unfold naturalLines Text.lines
  rw [first]
  fun_cases Text.linesFrom line.reverse tail with
  | case1 empty =>
    exact absurd (List.reverse_eq_nil_iff.mp empty) (by simpa using nonempty)
  | case2 =>
    have trimmed := trimEndWhile_append solid [] (by simp)
    rw [List.append_nil] at trimmed
    simp [dropLineEnd, Text.linesFrom, trimmed]
  | case3 cs =>
    have trimmed := trimEndWhile_append solid ['\r', '\n'] (by simp [isLineEnd])
    simp [dropLineEnd, trimmed]
  | case4 c cs notBoth isEnd =>
    have trimmed := trimEndWhile_append solid [c] (by simpa [isLineEnd] using isEnd)
    simp [dropLineEnd_cons notBoth, trimmed]
  | case5 c cs _ notEnd =>
    have isEnd : isLineEnd c = true := ends c rfl
    exact absurd (by simpa [isLineEnd] using isEnd) notEnd

theorem head_dropWhile (p : Char → Bool) (t : Text) : ∀ c ∈ (t.dropWhile p).head?, p c = false := by
  intro c head
  have stops := List.head?_dropWhile_not p t
  rw [Option.mem_def.mp head] at stops
  simpa using stops

/-- Every text is its first line and the rest from the line end on. -/
theorem exists_firstLine (t : Text) :
    ∃ line tail, t = line ++ tail ∧ (∀ c ∈ line, isLineEnd c = false) ∧ AtLineEnd tail := by
  refine ⟨t.takeWhile fun c => !isLineEnd c, t.dropWhile fun c => !isLineEnd c,
    (List.takeWhile_append_dropWhile).symm, ?_, ?_⟩
  · intro c inside
    simpa using List.all_eq_true.mp List.all_takeWhile c inside
  · intro c head
    simpa using head_dropWhile _ t c head

/-! ## Logical lines, character by character -/

/-- The logical line in front without its continuations, and what is left, its line end included.
`continued` tells that a continuation comes right before, so that blanks count for nothing. -/
def takeLine : (continued : Bool) → Text → Text × Text
  | _, [] => ([], [])
  | _, ['\\'] => ([], [])
  | _, '\\' :: '\r' :: '\n' :: cs => takeLine true cs
  | _, '\\' :: c :: cs =>
    if isLineEnd c then takeLine true cs
    else let (line, rest) := takeLine false cs; ('\\' :: c :: line, rest)
  | continued, c :: cs =>
    if isLineEnd c then ([], c :: cs)
    else if continued ∧ isBlank c then takeLine true cs
    else let (line, rest) := takeLine false cs; (c :: line, rest)

/-- A key or a value as written, without its continuations. -/
def joined (raw : Text) : Text := (takeLine false raw).1

/-- Every backslash is the last character or escapes the next one. -/
theorem ne_slash {c : Char} {cs : Text} (notLast : c = '\\' → cs = [] → False)
    (notEscape : ∀ d ds, c = '\\' → cs = d :: ds → False) : c ≠ '\\' := by
  rintro rfl
  cases cs with
  | nil => exact notLast rfl rfl
  | cons d ds => exact notEscape d ds rfl rfl

theorem isLineEnd_of_isBlank {c : Char} (blank : isBlank c = true) : isLineEnd c = false := by
  simp only [isBlank, Bool.or_eq_true, beq_iff_eq] at blank
  rcases blank with (rfl | rfl) | rfl <;> rfl

theorem ne_slash_of_isBlank {c : Char} (blank : isBlank c = true) : c ≠ '\\' := by
  rintro rfl
  contradiction

/-- A character that escapes nothing ends the line, counts for nothing or stands for itself. -/
theorem takeLine_cons (continued : Bool) {c : Char} (notSlash : c ≠ '\\') (cs : Text) :
    takeLine continued (c :: cs) =
      if isLineEnd c then ([], c :: cs)
      else if continued ∧ isBlank c then takeLine true cs
      else (c :: (takeLine false cs).1, (takeLine false cs).2) := by
  rw [takeLine] <;> simp [notSlash]

/-- A backslash takes the next character with it, unless that is a line end. -/
theorem takeLine_escape (continued : Bool) {c : Char} (solid : isLineEnd c = false) (cs : Text) :
    takeLine continued ('\\' :: c :: cs) =
      ('\\' :: c :: (takeLine false cs).1, (takeLine false cs).2) := by
  rw [takeLine]
  · simp [solid]
  · rintro _ rfl -
    contradiction

/-- A continuation counts for nothing, and neither do the blanks behind it. -/
theorem takeLine_continuation (continued : Bool) {tail : Text} (ends : AtLineEnd tail) :
    takeLine continued ('\\' :: tail) = takeLine true (dropLineEnd tail) := by
  fun_cases dropLineEnd tail with
  | case1 cs => rfl
  | case2 _ notBoth =>
    cases tail with
    | nil => rfl
    | cons c cs =>
      have isEnd : isLineEnd c = true := ends c rfl
      rw [takeLine, if_pos isEnd]
      · rfl
      · rintro _ rfl rfl
        exact notBoth _ rfl

theorem takeLine_lineBreak (continued : Bool) {c : Char} {cs : Text} (isEnd : isLineEnd c = true)
    (notBoth : ∀ ds, c = '\r' → cs = '\n' :: ds → False) :
    takeLine continued ('\\' :: c :: cs) = takeLine true cs := by
  have ends : AtLineEnd (c :: cs) := fun d head => Option.some.inj head ▸ isEnd
  rw [takeLine_continuation continued ends, dropLineEnd_cons notBoth]

theorem takeLine_lineEnd (continued : Bool) {tail : Text} (ends : AtLineEnd tail) :
    takeLine continued tail = ([], tail) := by
  cases tail with
  | nil => rfl
  | cons c cs =>
    have isEnd : isLineEnd c = true := ends c rfl
    have notSlash : c ≠ '\\' := by
      rintro rfl
      contradiction
    rw [takeLine_cons continued notSlash, if_pos isEnd]

/-- Whether a continuation comes right before makes no difference in front of what is no blank. -/
theorem takeLine_of_solid {t : Text} (solid : ∀ c ∈ t.head?, isBlank c = false)
    (continued : Bool) : takeLine continued t = takeLine false t := by
  cases t with
  | nil => rfl
  | cons c cs =>
    have notBlank : isBlank c = false := solid c rfl
    by_cases slash : c = '\\'
    · subst slash
      cases cs with
      | nil => rfl
      | cons d ds =>
        by_cases ends : isLineEnd d = true
        · have atEnd : AtLineEnd (d :: ds) := fun c head => Option.some.inj head ▸ ends
          rw [takeLine_continuation _ atEnd, takeLine_continuation _ atEnd]
        · have solid := Bool.eq_false_iff.mpr ends
          rw [takeLine_escape _ solid, takeLine_escape _ solid]
    · rw [takeLine_cons _ slash, takeLine_cons _ slash]
      simp [notBlank]

/-- Blanks behind a continuation count for nothing, all others stand for themselves. -/
theorem takeLine_blanks {blanks : Text} (blank : ∀ c ∈ blanks, isBlank c = true)
    (continued : Bool) (t : Text) :
    takeLine continued (blanks ++ t) =
      ((if continued then [] else blanks) ++ (takeLine continued t).1,
        (takeLine continued t).2) := by
  induction blanks with
  | nil => simp
  | cons c blanks ih =>
    obtain ⟨first, others⟩ := List.forall_mem_cons.mp blank
    have notSlash := ne_slash_of_isBlank first
    have notEnd := isLineEnd_of_isBlank first
    rw [List.cons_append, takeLine_cons _ notSlash]
    cases continued <;> simp [first, notEnd, ih others]

/-- Without its continuations a text does not begin with a blank unless it did before. -/
theorem head_takeLine (continued : Bool) {t : Text}
    (h : continued = true ∨ ∀ c ∈ t.head?, isBlank c = false) :
    ∀ c ∈ (takeLine continued t).1.head?, isBlank c = false := by
  fun_induction takeLine continued t with
  | case1 => simp
  | case2 => simp
  | case3 _ cs ih => exact ih (.inl rfl)
  | case4 _ c cs _ _ ih => exact ih (.inl rfl)
  | case5 => simp [isBlank]
  | case6 => simp
  | case7 _ c cs _ _ _ _ _ ih => exact ih (.inl rfl)
  | case8 continued c cs _ _ _ _ counts =>
    rintro d ⟨⟩
    rcases h with rfl | solid
    · simpa using counts
    · exact solid c rfl

/-- Without its continuations a text begins with an escape of two characters, with another
character or not at all. -/
theorem takeLine_cases (continued : Bool) (t : Text) :
    (takeLine continued t).1 = [] ∨
      (∃ c cs, (takeLine continued t).1 = '\\' :: c :: cs) ∨
      ∃ c cs, c ≠ '\\' ∧ (takeLine continued t).1 = c :: cs := by
  fun_induction takeLine continued t with
  | case1 => exact .inl rfl
  | case2 => exact .inl rfl
  | case3 _ cs ih => exact ih
  | case4 _ c cs _ _ ih => exact ih
  | case5 => exact .inr (.inl ⟨_, _, rfl⟩)
  | case6 => exact .inl rfl
  | case7 _ c cs _ _ _ _ _ ih => exact ih
  | case8 continued c cs notLast _ notEscape =>
    exact .inr (.inr ⟨c, _, ne_slash notLast notEscape, rfl⟩)

theorem continues_cons {c : Char} (notSlash : c ≠ '\\') (line : Text) :
    continues (c :: line) = continues line := by
  unfold continues
  rw [List.reverse_cons, List.takeWhile_append]
  split <;> simp_all

theorem continues_escape (c : Char) (line : Text) :
    continues ('\\' :: c :: line) = continues line := by
  by_cases slashes : ∀ d ∈ line, d = '\\'
  · have same : line.reverse.takeWhile (· = '\\') = line.reverse :=
      List.takeWhile_eq_self_iff.mpr (by simpa using slashes)
    unfold continues
    rw [List.reverse_cons, List.reverse_cons, List.append_assoc, List.takeWhile_append, same]
    by_cases slash : c = '\\' <;> simp [slash]
  · have shorter : (line.reverse.takeWhile (· = '\\')).length ≠ line.reverse.length := by
      intro whole
      have same := (List.takeWhile_prefix _).eq_of_length whole
      exact slashes fun d inside => by
        simpa using List.takeWhile_eq_self_iff.mp same d (List.mem_reverse.mpr inside)
    unfold continues
    rw [List.reverse_cons, List.reverse_cons, List.append_assoc, List.takeWhile_append,
      if_neg shorter]

/-- A natural line as part of a logical line: behind a continuation without the blanks in front. -/
def trimmed (continued : Bool) (line : Text) : Text :=
  if continued then line.dropWhile isBlank else line

theorem trimmed_cons {continued : Bool} {c : Char} (counts : ¬ (continued = true ∧ isBlank c = true))
    (line : Text) : trimmed continued (c :: line) = c :: line := by
  cases continued with
  | false => rfl
  | true => exact List.dropWhile_cons_of_neg fun blank => counts ⟨rfl, blank⟩

/-- A backslash is no blank. -/
theorem trimmed_slash (continued : Bool) (line : Text) :
    trimmed continued ('\\' :: line) = '\\' :: line :=
  trimmed_cons (fun blank => absurd blank.2 (by decide)) line

theorem trimmed_ne_nil {line : Text} (goesOn : continues line = true) (continued : Bool) :
    trimmed continued line ≠ [] := by
  intro empty
  have blank : ∀ c ∈ line, isBlank c = true := by
    cases continued with
    | false => simp [show line = [] from empty]
    | true => exact List.dropWhile_eq_nil_iff.mp empty
  have noSlash : line.reverse.takeWhile (· = '\\') = [] := by
    rw [List.takeWhile_eq_nil_iff]
    intro nonempty slash
    have last := blank _ (List.mem_reverse.mp (List.get_mem _ ⟨0, nonempty⟩))
    rw [of_decide_eq_true slash] at last
    contradiction
  rw [continues, noSlash] at goesOn
  contradiction

/-- What a natural line gives to the logical line, and where that goes on. -/
theorem takeLine_append {line tail : Text} (solid : ∀ c ∈ line, isLineEnd c = false)
    (ends : AtLineEnd tail) (continued : Bool) :
    takeLine continued (line ++ tail) =
      if continues line then
        ((trimmed continued line).dropLast ++ (takeLine true (dropLineEnd tail)).1,
          (takeLine true (dropLineEnd tail)).2)
      else (trimmed continued line, tail) := by
  fun_induction takeLine continued line with
  | case1 continued =>
    have empty : trimmed continued [] = [] := by cases continued <;> rfl
    rw [List.nil_append, takeLine_lineEnd continued ends, empty]
    rfl
  | case2 continued =>
    have slash : trimmed continued ['\\'] = ['\\'] := trimmed_slash _ _
    rw [List.singleton_append, takeLine_continuation continued ends, slash]
    rfl
  | case3 => simp [isLineEnd] at solid
  | case4 _ c cs _ isEnd => simp [isEnd] at solid
  | case5 continued c cs _ notEnd line rest taken ih =>
    have ih := ih fun d inside => solid d (by simp [inside])
    rw [List.cons_append, List.cons_append, takeLine_escape continued (by simpa using notEnd), ih,
      continues_escape, trimmed_slash]
    cases goesOn : continues cs with
    | false => rfl
    | true =>
      obtain ⟨d, ds, rfl⟩ := List.exists_cons_of_ne_nil (trimmed_ne_nil goesOn false)
      rfl
  | case6 _ c cs _ _ _ isEnd => simp [isEnd] at solid
  | case7 continued c cs notLast _ notEscape notEnd blank ih =>
    have ih := ih fun d inside => solid d (by simp [inside])
    have notSlash := ne_slash_of_isBlank blank.2
    rw [List.cons_append, takeLine_cons continued notSlash, if_neg notEnd, if_pos blank, ih,
      continues_cons notSlash]
    have same : trimmed true cs = trimmed continued (c :: cs) := by
      simp [trimmed, blank]
    rw [same]
  | case8 continued c cs notLast _ notEscape notEnd counts line rest taken ih =>
    have ih := ih fun d inside => solid d (by simp [inside])
    have notSlash := ne_slash notLast notEscape
    rw [List.cons_append, takeLine_cons continued notSlash, if_neg notEnd, if_neg counts, ih,
      continues_cons notSlash, trimmed_cons counts]
    cases goesOn : continues cs with
    | false => rfl
    | true =>
      obtain ⟨d, ds, rfl⟩ := List.exists_cons_of_ne_nil (trimmed_ne_nil goesOn false)
      rfl

/-- The line end in front of a text is no line by itself where a logical line could begin. -/
theorem logicalLines_lineEnd {tail : Text} (ends : AtLineEnd tail) :
    logicalLines none (naturalLines tail) = logicalLines none (naturalLines (dropLineEnd tail)) := by
  cases tail with
  | nil => rfl
  | cons c cs =>
    have lines : naturalLines ([] ++ c :: cs) = [] :: naturalLines (dropLineEnd (c :: cs)) :=
      naturalLines_append (by simp) ends (by simp)
    rw [List.nil_append] at lines
    rw [lines]
    rfl

theorem dropLineEnd_length_le (tail : Text) : (dropLineEnd tail).length ≤ tail.length := by
  fun_cases dropLineEnd tail with
  | case1 cs => simp; omega
  | case2 => simp

/-- Behind a continuation the logical line goes on to its end, and other lines follow. -/
theorem logicalLines_some (front t : Text) :
    logicalLines (some front) (naturalLines t) =
      (front ++ (takeLine true t).1) :: logicalLines none (naturalLines (takeLine true t).2) := by
  generalize size : t.length = n
  induction n using Nat.strongRecOn generalizing front t with
  | ind n ih =>
    obtain ⟨line, tail, rfl, solid, ends⟩ := exists_firstLine t
    by_cases empty : line ++ tail = []
    · rw [empty]
      simp [naturalLines, Text.lines, Text.linesFrom, logicalLines, takeLine]
    · have added : joinedTo (some front) line = front ++ trimmed true line := rfl
      rw [naturalLines_append solid ends empty, logicalLines, takeLine_append solid ends, added]
      cases goesOn : continues line with
      | false => simp [logicalLines_lineEnd ends]
      | true =>
        have positive : 0 < line.length := List.length_pos_iff.mpr (trimmed_ne_nil goesOn false)
        have shorter : (dropLineEnd tail).length < n := by
          have := dropLineEnd_length_le tail
          rw [← size, List.length_append]
          omega
        have rest := ih _ shorter (front ++ (trimmed true line).dropLast) (dropLineEnd tail) rfl
        simp [rest, List.dropLast_append_of_ne_nil (trimmed_ne_nil goesOn true)]

/-- Where the first line is not left out, a logical line begins. -/
theorem logicalLines_none {line tail : Text} (solid : ∀ c ∈ line, isLineEnd c = false)
    (ends : AtLineEnd tail) (counts : isIgnored line = false) :
    logicalLines none (naturalLines (line ++ tail)) =
      (takeLine false (line ++ tail)).1 ::
        logicalLines none (naturalLines (takeLine false (line ++ tail)).2) := by
  have nonempty : line ++ tail ≠ [] := by
    intro empty
    rw [(List.append_eq_nil_iff.mp empty).1] at counts
    contradiction
  rw [naturalLines_append solid ends nonempty, logicalLines, takeLine_append solid ends]
  cases goesOn : continues line with
  | false => simp [counts, logicalLines_lineEnd ends, joinedTo, trimmed]
  | true => simp [counts, logicalLines_some, joinedTo, trimmed]

/-- A line that is left out, with its end. -/
theorem load_ignored {line tail : Text} (solid : ∀ c ∈ line, isLineEnd c = false)
    (ends : AtLineEnd tail) (ignored : isIgnored line = true) : load (line ++ tail) = load tail := by
  unfold load
  by_cases empty : line ++ tail = []
  · rw [empty, (List.append_eq_nil_iff.mp empty).2]
  · rw [naturalLines_append solid ends empty, logicalLines, logicalLines_lineEnd ends]
    simp [ignored]

theorem load_lineEnd {c : Char} (isEnd : isLineEnd c = true) (cs : Text) :
    load (c :: cs) = load cs := by
  have ends : AtLineEnd (c :: cs) := fun d head => Option.some.inj head ▸ isEnd
  unfold load
  rw [logicalLines_lineEnd ends]
  by_cases both : ∃ ds, c = '\r' ∧ cs = '\n' :: ds
  · obtain ⟨ds, rfl, rfl⟩ := both
    have second : AtLineEnd ('\n' :: ds) := fun d head => Option.some.inj head ▸ rfl
    rw [logicalLines_lineEnd second]
    rfl
  · rw [dropLineEnd_cons fun ds first second => both ⟨ds, first, second⟩]

/-- Blanks in front of a logical line count for nothing. -/
theorem load_blank {c : Char} (blank : isBlank c = true) (cs : Text) : load (c :: cs) = load cs := by
  have notEnd := isLineEnd_of_isBlank blank
  have notSlash := ne_slash_of_isBlank blank
  obtain ⟨line, tail, rfl, solid, ends⟩ := exists_firstLine cs
  have solid' : ∀ d ∈ c :: line, isLineEnd d = false := List.forall_mem_cons.mpr ⟨notEnd, solid⟩
  have same : isIgnored (c :: line) = isIgnored line := by simp [isIgnored, blank]
  cases ignored : isIgnored line with
  | true => rw [load_ignored solid ends ignored, ← List.cons_append,
      load_ignored solid' ends (same.trans ignored)]
  | false =>
    unfold load
    rw [← List.cons_append, logicalLines_none solid' ends (same.trans ignored),
      logicalLines_none solid ends ignored, List.cons_append, takeLine_cons _ notSlash]
    simp [notEnd, loadLine, blank]

/-- Comments are left out. -/
theorem load_comment {sign : Char} (opens : sign = '#' ∨ sign = '!') (cs : Text) :
    load (sign :: cs) = load (cs.dropWhile fun c => !isLineEnd c) := by
  obtain ⟨line, tail, rfl, solid, ends⟩ := exists_firstLine cs
  have solid' : ∀ d ∈ sign :: line, isLineEnd d = false :=
    List.forall_mem_cons.mpr ⟨by rcases opens with rfl | rfl <;> rfl, solid⟩
  have ignored : isIgnored (sign :: line) = true := by
    rcases opens with rfl | rfl <;> simp [isIgnored, isBlank]
  have rest : (line ++ tail).dropWhile (fun c => !isLineEnd c) = tail := by
    rw [List.dropWhile_append_of_pos fun c inside => by simp [solid c inside]]
    cases tail with
    | nil => rfl
    | cons c cs => exact List.dropWhile_cons_of_neg (by simp [ends c rfl])
  rw [← List.cons_append, load_ignored solid' ends ignored, rest]

/-- A logical line begins with a character that is no blank, no line end and opens no comment. -/
theorem load_solid {c : Char} (solid : isSpace c = false) (opensNone : ¬ (c = '#' ∨ c = '!'))
    (cs : Text) :
    load (c :: cs) = loadLine (takeLine false (c :: cs)).1 :: load (takeLine false (c :: cs)).2 := by
  obtain ⟨notBlank, notEnd⟩ : isBlank c = false ∧ isLineEnd c = false := by
    simpa [isSpace] using solid
  obtain ⟨line, tail, rfl, inside, ends⟩ := exists_firstLine cs
  have inside' : ∀ d ∈ c :: line, isLineEnd d = false := List.forall_mem_cons.mpr ⟨notEnd, inside⟩
  have counts : isIgnored (c :: line) = false := by
    simpa [isIgnored, notBlank] using opensNone
  unfold load
  rw [← List.cons_append, logicalLines_none inside' ends counts]
  rfl

/-! ## Keys and values in logical lines -/

theorem resolved_cons {c : Char} (notSlash : c ≠ '\\') (cs : Text) :
    resolved (c :: cs) = c :: resolved cs := by
  rw [resolved]
  · intro same
    exact (notSlash same).elim
  · intro _ _ same
    exact (notSlash same).elim

theorem resolved_takeLine_append (continued : Bool) (t more : Text) :
    resolved ((takeLine continued t).1 ++ more) =
      resolved (takeLine continued t).1 ++ resolved more := by
  fun_induction takeLine continued t with
  | case1 => rfl
  | case2 => rfl
  | case3 _ cs ih => exact ih
  | case4 _ c cs _ _ ih => exact ih
  | case5 continued c cs _ _ line rest taken ih =>
    rw [taken] at ih
    simp [resolved, ih]
  | case6 => rfl
  | case7 _ c cs _ _ _ _ _ ih => exact ih
  | case8 continued c cs notLast _ notEscape _ _ line rest taken ih =>
    have notSlash := ne_slash notLast notEscape
    rw [taken] at ih
    rw [List.cons_append, resolved_cons notSlash, resolved_cons notSlash, ih, List.cons_append]

theorem cutKey_stop {t : Text} (stops : ∀ c ∈ t.head?, isBlank c = true ∨ c = '=' ∨ c = ':') :
    cutKey t = ([], t) := by
  cases t with
  | nil => rfl
  | cons c cs =>
    have stop := stops c rfl
    rw [cutKey, if_pos stop]
    rintro _ _ rfl -
    simp [isBlank] at stop

/-- A key does not begin with a blank. -/
theorem cutKey_blanks {blanks t : Text} (blank : ∀ c ∈ blanks, isBlank c = true)
    (stops : blanks ≠ [] ∨ ∀ c ∈ t.head?, isBlank c = true ∨ c = '=' ∨ c = ':') :
    cutKey (blanks ++ t) = ([], blanks ++ t) := by
  refine cutKey_stop ?_
  cases blanks with
  | nil => exact stops.resolve_left fun nonempty => nonempty rfl
  | cons c cs =>
    rintro d ⟨⟩
    exact .inl (blank c List.mem_cons_self)

theorem dropDelimiter_blanks {blanks : Text} (blank : ∀ c ∈ blanks, isBlank c = true) (t : Text) :
    dropDelimiter (blanks ++ t) = dropDelimiter t := by
  unfold dropDelimiter
  rw [List.dropWhile_append_of_pos blank]

theorem dropWhile_of_solid {t : Text} (solid : ∀ c ∈ t.head?, isBlank c = false) :
    t.dropWhile isBlank = t := by
  cases t with
  | nil => rfl
  | cons c cs => exact List.dropWhile_cons_of_neg (by simp [solid c rfl])

/-- One delimiter is left out, with the blanks behind it. -/
theorem dropDelimiter_delimiter {c : Char} (delimits : c = '=' ∨ c = ':') (cs : Text) :
    dropDelimiter (c :: cs) = cs.dropWhile isBlank := by
  have solid : ∀ d ∈ (c :: cs).head?, isBlank d = false := by
    rintro d ⟨⟩
    rcases delimits with rfl | rfl <;> rfl
  rw [dropDelimiter, dropWhile_of_solid solid]
  exact if_pos delimits

theorem dropDelimiter_of_solid {t : Text}
    (solid : ∀ c ∈ t.head?, isBlank c = false ∧ c ≠ '=' ∧ c ≠ ':') : dropDelimiter t = t := by
  rw [dropDelimiter, dropWhile_of_solid fun c head => (solid c head).1]
  cases t with
  | nil => rfl
  | cons c cs => exact if_neg (not_or.mpr (solid c rfl).2)

theorem length_resolved_dropWhile (t : Text) :
    (resolved (t.dropWhile isBlank)).length ≤ (resolved t).length := by
  induction t with
  | nil => exact Nat.le_refl _
  | cons c cs ih =>
    by_cases blank : isBlank c = true
    · rw [List.dropWhile_cons_of_pos blank, resolved_cons (ne_slash_of_isBlank blank)]
      exact Nat.le_succ_of_le ih
    · rw [List.dropWhile_cons_of_neg blank]

/-- A delimiter that is left out is missed. -/
theorem resolved_dropDelimiter_ne {c : Char} (delimits : c = '=' ∨ c = ':') (cs : Text) :
    resolved (dropDelimiter (c :: cs)) ≠ resolved (c :: cs) := by
  intro same
  have notSlash : c ≠ '\\' := by
    rintro rfl
    simp at delimits
  have lengths := congrArg List.length same
  have shorter := length_resolved_dropWhile cs
  rw [dropDelimiter_delimiter delimits, resolved_cons notSlash, List.length_cons] at lengths
  omega

theorem resolved_dropDelimiter_eq_iff {t : Text} (solid : ∀ c ∈ t.head?, isBlank c = false) :
    resolved (dropDelimiter t) = resolved t ↔ ∀ c ∈ t.head?, c ≠ '=' ∧ c ≠ ':' := by
  refine ⟨fun same => ?_, fun plain => ?_⟩
  · cases t with
    | nil => simp
    | cons c cs =>
      rintro d ⟨⟩
      exact not_or.mp fun delimits => resolved_dropDelimiter_ne delimits cs same
  · rw [dropDelimiter_of_solid fun c head => ⟨solid c head, plain c head⟩]

/-- Without blanks in front a value would be part of the key, or lose a delimiter. -/
theorem resolved_cutKey_ne {raw : Text} (solid : ∀ c ∈ (joined raw).head?, isBlank c = false)
    (nonempty : joined raw ≠ []) :
    ¬ (resolved (cutKey (joined raw)).1 = [] ∧
      resolved (dropDelimiter (cutKey (joined raw)).2) = resolved (joined raw)) := by
  rintro ⟨noKey, sameText⟩
  obtain empty | ⟨c, cs, escape⟩ | ⟨c, cs, notSlash, text⟩ := takeLine_cases false raw
  · exact nonempty empty
  · rw [joined, escape] at noKey
    simp [cutKey, resolved] at noKey
  · have text : joined raw = c :: cs := text
    rw [text] at solid noKey sameText
    by_cases delimits : c = '=' ∨ c = ':'
    · have stops : ∀ d ∈ (c :: cs).head?, isBlank d = true ∨ d = '=' ∨ d = ':' := by
        rintro d ⟨⟩
        exact .inr delimits
      rw [cutKey_stop stops] at sameText
      exact resolved_dropDelimiter_ne delimits cs sameText
    · rw [cutKey] at noKey
      · simp [solid c rfl, delimits, resolved_cons notSlash] at noKey
      · intro _ _ same
        exact (notSlash same).elim

end ConfigTree.Properties
