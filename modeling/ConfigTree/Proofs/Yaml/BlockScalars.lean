import Mathlib.Data.List.DropRight
import ConfigTree.Proofs.Text.Cutting
import ConfigTree.Proofs.Yaml.Scanning

/-!
# The extent of literal and folded scalars

Which lines a literal or folded scalar takes: those of its run, of blank lines and of lines further
in than the collection it stands in, up to the last one with content. A line is blank to the reader
if it is all white space, in the sense of Unicode. Everywhere else blanks are spaces, tabs and ends
of lines. The two come apart at lines with other white space alone.
-/

namespace ConfigTree.Yaml

/-- Whether a line has content for a scalar in a collection at `column`, where `blank` tells which
lines are blank. -/
def isContent (blank : Text → Bool) (column : Int) (line : Text) : Bool :=
  !blank line && decide (column < indentation line) && !isMarker line

/-- The lines of a scalar in a collection at `column` after the line of its indicator: the longest
run of blank lines and content lines, up to the last content line. -/
def scalarLines (blank : Text → Bool) (column : Int) (lines : List Text) : List Text :=
  (lines.takeWhile fun line => blank line || isContent blank column line).rdropWhile blank

/-- The text of a scalar in a collection at `column` when `t` follows its indicator. -/
def scalarText (blank : Text → Bool) (column : Int) (t : Text) : Text :=
  match Text.splitOn '\n' t with
  | [] => []
  | header :: lines => Text.joinWith '\n' (header :: scalarLines blank column lines)

/-- Whether a line has only blanks in the sense of `isBlank`. -/
def onlyBlanks (line : Text) : Bool := line.all isBlank

/-- Whether a line is all white space, but not all blanks. -/
def isOtherSpace (line : Text) : Bool := line.isBlank && !onlyBlanks line

variable {blank : Text → Bool} {column : Int} {line : Text} {lines : List Text}

theorem isBlank_of_onlyBlanks (only : onlyBlanks line = true) : line.isBlank = true := by
  have white {c : Char} (own : isBlank c = true) : isWhiteSpace c = true := by
    simp only [isBlank, Bool.or_eq_true, beq_iff_eq] at own
    rcases own with ((rfl | rfl) | rfl) | rfl <;> decide
  rw [onlyBlanks, List.all_eq_true] at only
  exact List.all_eq_true.mpr fun c isIn => white (only c isIn)

/-- A line of white space is no marker. -/
theorem isMarker_eq_false (space : line.isBlank = true) : isMarker line = false := by
  cases line with
  | nil => rfl
  | cons c cs =>
    have white : isWhiteSpace c = true := List.all_eq_true.mp space c (List.mem_cons_self ..)
    have dash : c ≠ '-' := by
      rintro rfl
      exact absurd white (by decide)
    have dot : c ≠ '.' := by
      rintro rfl
      exact absurd white (by decide)
    unfold isMarker opensDocument closesDocument
    split <;> split <;> simp_all

theorem rdropWhile_cons {α : Type} (p : α → Bool) (x : α) (l : List α) :
    (x :: l).rdropWhile p =
      if l.rdropWhile p = [] ∧ p x = true then [] else x :: l.rdropWhile p :=
  Text.reverse_dropWhile_reverse_cons p x l

theorem scalarLines_of_blank (column : Int) (lines : List Text) (own : blank line = true) :
    scalarLines blank column (line :: lines) =
      if scalarLines blank column lines = [] then []
      else line :: scalarLines blank column lines := by
  rw [scalarLines, List.takeWhile_cons_of_pos (by simp [own]), rdropWhile_cons]
  exact if_congr (by simp [own, scalarLines]) rfl rfl

theorem scalarLines_of_content (lines : List Text) (content : isContent blank column line = true) :
    scalarLines blank column (line :: lines) = line :: scalarLines blank column lines := by
  have own : blank line = false := by
    rw [isContent, Bool.and_eq_true, Bool.and_eq_true, Bool.not_eq_true'] at content
    exact content.1.1
  rw [scalarLines, List.takeWhile_cons_of_pos (by simp [content]), rdropWhile_cons]
  simp [own, scalarLines]

theorem scalarLines_of_end (lines : List Text) (own : blank line = false)
    (ends : isContent blank column line = false) :
    scalarLines blank column (line :: lines) = [] := by
  rw [scalarLines, List.takeWhile_cons_of_neg (by simp [own, ends]), List.rdropWhile_nil]

theorem scalarLines_isPrefix (blank : Text → Bool) (column : Int) (lines : List Text) :
    scalarLines blank column lines <+: lines :=
  (List.rdropWhile_prefix _ _).trans (List.takeWhile_prefix _)

/-- The scanner takes the lines that it should, with all white space for blanks. -/
theorem contentLines_eq {floor : Nat} (level : (floor : Int) = column + 1) (lines : List Text) :
    contentLines floor lines = scalarLines Text.isBlank column lines := by
  induction lines with
  | nil => rfl
  | cons line lines ih =>
    have inside : ¬ indentation line < floor ↔ column < indentation line := by omega
    rw [contentLines]
    split
    · next own =>
      rw [scalarLines_of_blank _ _ own, ih]
      cases scalarLines Text.isBlank column lines <;> simp
    · next own =>
      rw [Bool.not_eq_true] at own
      split
      · next ends =>
        refine (scalarLines_of_end _ own ?_).symm
        rw [isContent, own]
        rcases ends with shallow | marker
        · simp [← inside, shallow]
        · simp [marker]
      · next goesOn =>
        rw [not_or, inside, Bool.not_eq_true] at goesOn
        rw [scalarLines_of_content _ (by simp [isContent, own, goesOn]), ih]

theorem scanBlockScalar_fst {floor : Nat} (level : (floor : Int) = column + 1) (t : Text) :
    (scanBlockScalar floor t).1 = scalarText Text.isBlank column t := by
  rw [scanBlockScalar, scalarText]
  cases Text.splitOn '\n' t with
  | nil => rfl
  | cons header lines => simp only [contentLines_eq level]

/-- Lines of other white space make no difference to a scalar: those within it are further in than
`column`, and so is not the first one among the blank lines behind it. -/
def OtherSpaceIndifferent (column : Int) (lines : List Text) : Prop :=
  let taken := scalarLines Text.isBlank column lines
  (∀ line ∈ taken, isOtherSpace line = true → column < indentation line) ∧
    ∀ line ∈ ((lines.drop taken.length).takeWhile Text.isBlank).find? isOtherSpace,
      (indentation line : Int) ≤ column

instance (column : Int) (lines : List Text) : Decidable (OtherSpaceIndifferent column lines) :=
  inferInstanceAs (Decidable (_ ∧ _))

theorem otherSpaceIndifferent_nil (column : Int) : OtherSpaceIndifferent column [] := by
  simp [OtherSpaceIndifferent, scalarLines]

/-- Where the scalar has lines, the first of them may be of any kind but shallow other space. -/
theorem otherSpaceIndifferent_cons_of_taken
    (taken : scalarLines Text.isBlank column (line :: lines) =
      line :: scalarLines Text.isBlank column lines) :
    OtherSpaceIndifferent column (line :: lines) ↔
      (isOtherSpace line = true → column < indentation line) ∧
        OtherSpaceIndifferent column lines := by
  simp only [OtherSpaceIndifferent, taken, List.forall_mem_cons, List.length_cons,
    List.drop_succ_cons, and_assoc]

/-- Where the scalar has no lines, those behind it count. -/
theorem otherSpaceIndifferent_cons_of_blank (own : line.isBlank = true)
    (ends : scalarLines Text.isBlank column lines = []) :
    OtherSpaceIndifferent column (line :: lines) ↔
      if isOtherSpace line = true then (indentation line : Int) ≤ column
      else OtherSpaceIndifferent column lines := by
  have none : scalarLines Text.isBlank column (line :: lines) = [] := by
    rw [scalarLines_of_blank _ _ own, if_pos ends]
  simp only [OtherSpaceIndifferent, none, ends, List.not_mem_nil, List.length_nil, List.drop_zero,
    List.takeWhile_cons_of_pos own, List.find?_cons]
  cases isOtherSpace line <;> simp

/-- White space that is not all blanks has content for a reader of blanks where it is further in. -/
theorem isContent_onlyBlanks_of_isOtherSpace (column : Int) (other : isOtherSpace line = true) :
    isContent onlyBlanks column line = decide (column < indentation line) := by
  rw [isOtherSpace, Bool.and_eq_true] at other
  simp [isContent, other.2, isMarker_eq_false other.1]

/-- With either notion of blank lines a scalar takes the same lines. -/
def SameExtent (column : Int) (lines : List Text) : Prop :=
  scalarLines Text.isBlank column lines = scalarLines onlyBlanks column lines

section Line

variable (behind : SameExtent column lines ↔ OtherSpaceIndifferent column lines)
include behind

theorem sameExtent_cons_of_onlyBlanks (only : onlyBlanks line = true) :
    SameExtent column (line :: lines) ↔ OtherSpaceIndifferent column (line :: lines) := by
  have own := isBlank_of_onlyBlanks only
  have notOther : ¬ isOtherSpace line = true := by simp [isOtherSpace, only]
  have wide := scalarLines_of_blank column lines own
  rw [SameExtent, scalarLines_of_blank _ _ only]
  by_cases ends : scalarLines Text.isBlank column lines = []
  · rw [otherSpaceIndifferent_cons_of_blank own ends, wide, if_pos ends, if_neg notOther, ← behind,
      SameExtent, ends]
    by_cases none : scalarLines onlyBlanks column lines = []
    · rw [if_pos none, none]
    · rw [if_neg none]
      exact iff_of_false (List.cons_ne_nil _ _).symm (Ne.symm none)
  · rw [if_neg ends] at wide
    rw [otherSpaceIndifferent_cons_of_taken wide, wide, ← behind, SameExtent]
    split <;> simp_all

theorem sameExtent_cons_of_isOtherSpace (other : isOtherSpace line = true) :
    SameExtent column (line :: lines) ↔ OtherSpaceIndifferent column (line :: lines) := by
  obtain ⟨own, notOnly⟩ := (Bool.and_eq_true _ _).mp other
  rw [Bool.not_eq_true'] at notOnly
  have wide := scalarLines_of_blank column lines own
  have content := isContent_onlyBlanks_of_isOtherSpace column other
  -- To a reader of blanks the line is content or the end, by its indentation. To a reader of white
  -- space it belongs to the scalar if lines behind it do.
  by_cases deep : column < indentation line
  · rw [SameExtent, scalarLines_of_content _ (content.trans (decide_eq_true deep))]
    by_cases ends : scalarLines Text.isBlank column lines = []
    · rw [otherSpaceIndifferent_cons_of_blank own ends, wide, if_pos ends, if_pos other]
      exact iff_of_false (List.cons_ne_nil _ _).symm (by omega)
    · rw [if_neg ends] at wide
      rw [otherSpaceIndifferent_cons_of_taken wide, wide, ← behind]
      simp [deep, SameExtent]
  · rw [SameExtent, scalarLines_of_end _ notOnly (content.trans (decide_eq_false deep))]
    by_cases ends : scalarLines Text.isBlank column lines = []
    · rw [otherSpaceIndifferent_cons_of_blank own ends, wide, if_pos ends, if_pos other]
      exact iff_of_true rfl (by omega)
    · rw [if_neg ends] at wide
      rw [otherSpaceIndifferent_cons_of_taken wide, wide]
      simp [deep, other]

theorem sameExtent_cons_of_not_isBlank (own : line.isBlank = false) :
    SameExtent column (line :: lines) ↔ OtherSpaceIndifferent column (line :: lines) := by
  have notOnly : onlyBlanks line = false :=
    Bool.eq_false_iff.mpr fun only => by simp [isBlank_of_onlyBlanks only] at own
  have same : isContent onlyBlanks column line = isContent Text.isBlank column line := by
    simp [isContent, own, notOnly]
  by_cases content : isContent Text.isBlank column line = true
  · have wide := scalarLines_of_content lines content
    rw [SameExtent, otherSpaceIndifferent_cons_of_taken wide, wide,
      scalarLines_of_content _ (same.trans content), ← behind]
    simp [isOtherSpace, own, SameExtent]
  · rw [Bool.not_eq_true] at content
    have wide := scalarLines_of_end lines own content
    refine iff_of_true (wide.trans (scalarLines_of_end _ notOnly (same.trans content)).symm) ?_
    simp [OtherSpaceIndifferent, wide, own]

end Line

theorem sameExtent_iff (column : Int) (lines : List Text) :
    SameExtent column lines ↔ OtherSpaceIndifferent column lines := by
  induction lines with
  | nil => exact iff_of_true rfl (otherSpaceIndifferent_nil column)
  | cons line lines ih =>
    by_cases only : onlyBlanks line = true
    · exact sameExtent_cons_of_onlyBlanks ih only
    · by_cases own : line.isBlank = true
      · exact sameExtent_cons_of_isOtherSpace ih (by simp [isOtherSpace, own, only])
      · exact sameExtent_cons_of_not_isBlank ih (Bool.eq_false_iff.mpr own)

/-- The lines behind the line of an indicator. -/
def linesBehind (t : Text) : List Text := (Text.splitOn '\n' t).tail

theorem scalarText_eq_iff (column : Int) (t : Text) :
    scalarText Text.isBlank column t = scalarText onlyBlanks column t ↔
      OtherSpaceIndifferent column (linesBehind t) := by
  rw [← sameExtent_iff, SameExtent, linesBehind, scalarText, scalarText]
  cases pieces : Text.splitOn '\n' t with
  | nil => exact absurd pieces (Text.splitOn_ne_nil '\n' t)
  | cons header lines =>
    have whole (blank : Text → Bool) :
        Text.splitOn '\n' (Text.joinWith '\n' (header :: scalarLines blank column lines)) =
          header :: scalarLines blank column lines := by
      refine Text.splitOn_joinWith (List.cons_ne_nil _ _) fun piece isIn => ?_
      have pre : header :: scalarLines blank column lines <+: header :: lines :=
        List.cons_prefix_cons.mpr ⟨rfl, scalarLines_isPrefix blank column lines⟩
      exact Text.notMem_of_mem_splitOn (pieces ▸ pre.subset isIn)
    constructor
    · intro same
      have pieces := congrArg (Text.splitOn '\n') same
      rw [whole, whole] at pieces
      exact (List.cons.inj pieces).2
    · intro same
      rw [List.tail_cons] at same
      simp only [same]

/-! ## Where scalars are read -/

/-- A reader of values comes to a token in block context: of the body of a document, of an entry's
value or of an item's value. `column` is that of the collection, and -1 for a document. -/
inductive ReadsInBlock : Int → Token → Except Failure (Value × Cursor) → Prop where
  | body {cur : Cursor} : ReadsInBlock (-1) cur.token (readBody cur)
  | entry {steps column : Nat} {cur : Cursor}
      (inside : cur.token.onNewLine = true → column < cur.token.column) :
      ReadsInBlock column cur.token (readEntryValue (steps + 2) column cur)
  | item {steps column : Nat} {cur : Cursor}
      (inside : cur.token.onNewLine = true → column < cur.token.column) :
      ReadsInBlock column cur.token (readItemValue (steps + 2) column cur)

section Indicator

variable {style : ScalarStyle} {c : Char} {rest : Text} {tok : Token}

theorem opensItem_of_indicator (indicator : isIndicatorOf style c) (t : Text) :
    opensItem (c :: t) = false := by
  rcases indicator with ⟨-, rfl⟩ | ⟨-, rfl⟩ <;> rfl

theorem opensEntry_of_indicator (indicator : isIndicatorOf style c) (t : Text) :
    opensEntry (c :: t) = false := by
  rcases indicator with ⟨-, rfl⟩ | ⟨-, rfl⟩ <;> rfl

theorem endsDocument_of_indicator (indicator : isIndicatorOf style c)
    (opening : tok.here.rest = c :: rest) : tok.endsDocument = false := by
  rw [Token.endsDocument, Token.atEnd, Token.atMarker, Token.atDocumentStart, Token.atDocumentEnd,
    opening]
  rcases indicator with ⟨-, rfl⟩ | ⟨-, rfl⟩ <;> simp [opensDocument, closesDocument]

theorem readPlainValue_of_indicator (indicator : isIndicatorOf style c)
    (opening : tok.here.rest = c :: rest) (floor : Nat) :
    readPlainValue floor tok =
      .ok (.scalar (readBlockScalar style floor tok rest).1,
        (readBlockScalar style floor tok rest).2) := by
  unfold readPlainValue
  rw [opening]
  rcases indicator with ⟨rfl, rfl⟩ | ⟨rfl, rfl⟩ <;> rfl

theorem readValue_of_indicator (indicator : isIndicatorOf style c)
    (opening : tok.here.rest = c :: rest) (steps floor : Nat) :
    readValue (steps + 1) floor tok = readPlainValue floor tok := by
  rw [readValue, opening, opensItem_of_indicator indicator, opensEntry_of_indicator indicator]
  rfl

/-- Wherever an indicator is come to, the scalar behind it is read. -/
theorem ReadsInBlock.eq_readPlainValue {result : Except Failure (Value × Cursor)}
    (reads : ReadsInBlock column tok result) (indicator : isIndicatorOf style c)
    (opening : tok.here.rest = c :: rest) :
    ∃ floor : Nat, (floor : Int) = column + 1 ∧ result = readPlainValue floor tok := by
  have more := endsDocument_of_indicator indicator opening
  cases reads with
  | body =>
    refine ⟨0, rfl, ?_⟩
    rw [readBody]
    simp only [more, Bool.false_eq_true, if_false, stepBudget]
    exact readValue_of_indicator indicator opening _ _
  | @entry steps column cur inside =>
    refine ⟨column + 1, rfl, ?_⟩
    have item := opensItem_of_indicator indicator rest
    have entry := opensEntry_of_indicator indicator rest
    rw [readEntryValue]
    simp only [more, Bool.false_eq_true, if_false]
    split
    · rw [readInlineValue, opening, item, entry]
      rfl
    · next newLine =>
      rw [if_pos (inside (by simpa using newLine))]
      exact readValue_of_indicator indicator opening _ _
  | @item steps column cur inside =>
    refine ⟨column + 1, rfl, ?_⟩
    rw [readItemValue]
    rw [if_neg]
    · exact readValue_of_indicator indicator opening _ _
    · rintro (ends | ⟨newLine, outside⟩)
      · simp [more] at ends
      · exact absurd (inside newLine) (Nat.not_lt.mpr outside)

/-- A literal or folded scalar takes the run of blank lines and content lines up to the last
content line, where a line is blank if it is all white space. With blanks alone for white space it
would take the same lines just where other white space makes no difference. -/
theorem ReadsInBlock.scalar_extent {result : Except Failure (Value × Cursor)}
    (reads : ReadsInBlock column tok result) (indicator : isIndicatorOf style c)
    (opening : tok.here.rest = c :: rest) :
    (∃ left, rest = scalarText Text.isBlank column rest ++ left ∧
      result = .ok (.scalar (.fresh tok.lead style (scalarText Text.isBlank column rest)),
        tok.here.past (c :: scalarText Text.isBlank column rest) left)) ∧
    (scalarText Text.isBlank column rest = scalarText onlyBlanks column rest ↔
      OtherSpaceIndifferent column (linesBehind rest)) := by
  refine ⟨?_, scalarText_eq_iff column rest⟩
  obtain ⟨floor, level, read⟩ := reads.eq_readPlainValue indicator opening
  have text := scanBlockScalar_fst level rest
  refine ⟨(scanBlockScalar floor rest).2, ?_, ?_⟩
  · rw [← text, scanBlockScalar_append]
  · rw [read, readPlainValue_of_indicator indicator opening, readBlockScalar_eq, ← text]
    rcases indicator with ⟨rfl, rfl⟩ | ⟨rfl, rfl⟩ <;> rfl

/-- A no-break space further in than its collection, on the last line of a script. -/
theorem ReadsInBlock.scalar_extent_noBreakSpace :
    readEntryValue 2 0 ⟨2, false, " |\n  x\n  \u00a0\n".toList⟩ =
        .ok (.scalar (.fresh [' '] .literal "\n  x".toList), ⟨3, false, "\n  \u00a0\n".toList⟩) ∧
      "\n  x".toList ≠ scalarText onlyBlanks 0 "\n  x\n  \u00a0\n".toList := by
  obtain ⟨⟨left, whole, read⟩, same⟩ :=
    ReadsInBlock.scalar_extent
      (@ReadsInBlock.entry 0 0 ⟨2, false, " |\n  x\n  \u00a0\n".toList⟩ (by decide +kernel))
      (.inl ⟨rfl, rfl⟩ : isIndicatorOf .literal '|')
      (rfl : _ = '|' :: "\n  x\n  \u00a0\n".toList)
  have text : scalarText Text.isBlank 0 "\n  x\n  \u00a0\n".toList = "\n  x".toList := by
    decide +kernel
  rw [show ((0 : Nat) : Int) = 0 from rfl, text] at whole read same
  obtain rfl : "\n  \u00a0\n".toList = left := by simpa using whole
  exact ⟨read, fun equal => absurd (same.mp equal) (by decide +kernel)⟩

end Indicator

end ConfigTree.Yaml
