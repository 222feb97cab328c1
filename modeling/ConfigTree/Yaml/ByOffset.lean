import ConfigTree.Text.Offset
import ConfigTree.Yaml.Number

/-!
Reading YAML by byte offsets. These readers take a text as its UTF-8 bytes: they keep an offset into
it, scan byte by byte and slice out what lies between two offsets. What could go wrong on the way,
other than in the text, is an outcome of its own: a slice that does not exist, a byte behind the end,
a step back, and a round or a nested value that takes nothing. Since the places that recur are
checked to lie further on, the readers are defined by recursion on the bytes left.
-/

namespace ConfigTree.Yaml.ByOffset

/-- Why reading stops: the text is refused, or the reader went wrong. -/
inductive Stop where
  | refused (error : SyntaxError)
  /-- There is no slice between the two offsets. -/
  | noSlice (start stop : Nat)
  /-- There is no byte at the offset. -/
  | noByte (offset : Nat)
  /-- The target lies before the offset, or behind the end. -/
  | back (offset target : Nat)
  /-- The target does not lie behind the offset, or it does behind the end. -/
  | stuck (offset target : Nat)
deriving DecidableEq, Repr

/-! ### Bytes -/

/-- The character that a byte is by itself. The bytes of longer characters are none. -/
def ascii? (b : UInt8) : Option Char := if b < 128 then some (Char.ofUInt8 b) else none

def isBlankByte (b : UInt8) : Bool := (ascii? b).any isBlank

/-- The number of bytes to the next significant one, and whether there is a line feed among them.
A comment may open at the first byte if `mayOpen`, and is open already if `inComment`. -/
def skipTrivia (mayOpen inComment : Bool) : List UInt8 → Nat × Bool
  | [] => (0, false)
  | b :: bs =>
    if ascii? b = some '\n' then
      let (n, _) := skipTrivia true false bs
      (n + 1, true)
    else if inComment ∨ isBlankByte b then
      let (n, newLine) := skipTrivia (isBlankByte b) inComment bs
      (n + 1, newLine)
    else if ascii? b = some '#' ∧ mayOpen then
      let (n, newLine) := skipTrivia false true bs
      (n + 1, newLine)
    else (0, false)

/-- Whether a colon before these bytes ends a plain scalar. -/
def colonEndsBytes (inFlow : Bool) : List UInt8 → Bool
  | [] => true
  | b :: _ => isBlankByte b || (inFlow && (ascii? b).any isFlowIndicator)

/-- The end of a plain scalar that has been scanned up to `offset`, and up to `stop` without the
blanks at its end. -/
def plainEnd (inFlow afterBlank : Bool) (offset stop : Nat) : List UInt8 → Nat
  | [] => stop
  | b :: bs =>
    if ascii? b = some '\n' ∨ ascii? b = some '\r' then stop
    else if ascii? b = some ':' ∧ colonEndsBytes inFlow bs then stop
    else if ascii? b = some '#' ∧ afterBlank then stop
    else if inFlow ∧ (ascii? b).any isFlowIndicator then stop
    else
      plainEnd inFlow (isBlankByte b) (offset + 1)
        (if (ascii? b).any isInlineBlank then stop else offset + 1) bs

/-- The offset behind the closing quote of a single-quoted scalar that has been scanned up
to `offset`. -/
def singleQuotedEnd (offset : Nat) : List UInt8 → Option Nat
  | [] => none
  | [b] => if ascii? b = some '\'' then some (offset + 1) else none
  | b :: b' :: bs =>
    if ascii? b = some '\'' then
      if ascii? b' = some '\'' then singleQuotedEnd (offset + 2) bs else some (offset + 1)
    else singleQuotedEnd (offset + 1) (b' :: bs)

/-- The offset behind the closing quote of a double-quoted scalar that has been scanned up to
`offset`. A backslash takes the next byte with it, be it a character or only the first byte
of one. -/
def doubleQuotedEnd (offset : Nat) : List UInt8 → Option Nat
  | [] => none
  | [b] => if ascii? b = some '"' then some (offset + 1) else none
  | b :: b' :: bs =>
    if ascii? b = some '\\' then doubleQuotedEnd (offset + 2) bs
    else if ascii? b = some '"' then some (offset + 1)
    else doubleQuotedEnd (offset + 1) (b' :: bs)

/-- The number of bytes before the next line feed. -/
def lineLength (bs : List UInt8) : Nat := (bs.takeWhile fun b => ascii? b ≠ some '\n').length

/-- The number of blanks in front that do not end a line. -/
def inlineBlanks (bs : List UInt8) : Nat :=
  (bs.takeWhile fun b => (ascii? b).any isInlineBlank).length

/-- The start of the last line of what has been read up to `offset`, whose last line started
at `start`. -/
def lastLineStart (offset start : Nat) : List UInt8 → Nat
  | [] => start
  | b :: bs => lastLineStart (offset + 1) (if ascii? b = some '\n' then offset + 1 else start) bs

variable (text : Text)

/-- The bytes from an offset on. -/
def bytesFrom (pos : Nat) : List UInt8 := (Text.utf8 text).drop pos

/-- The character of one byte at an offset. -/
def byteAt (pos : Nat) : Option Char := (bytesFrom text pos).head?.bind ascii?

/-- Whether a blank or the end of the text is at an offset. -/
def blankOrEndAt (pos : Nat) : Bool := (bytesFrom text pos).head?.all isBlankByte

/-- Whether an item of a block sequence opens at an offset. -/
def dashAt (pos : Nat) : Bool := byteAt text pos == some '-' && blankOrEndAt text (pos + 1)

/-! ### Offsets -/

/-- The text between two offsets. -/
def slice (start stop : Nat) : Except Stop Text :=
  match text.slice? start stop with
  | some middle => .ok middle
  | none => .error (.noSlice start stop)

/-- The offset `target`, which must not lie before `pos`. -/
def moveTo (pos target : Nat) : Except Stop {n : Nat // pos ≤ n ∧ n ≤ text.size} :=
  if h : pos ≤ target ∧ target ≤ text.size then .ok ⟨target, h⟩ else .error (.back pos target)

/-- The offset `target`, which must lie behind `pos`. -/
def advance (pos target : Nat) : Except Stop {n : Nat // pos < n ∧ n ≤ text.size} :=
  if h : pos < target ∧ target ≤ text.size then .ok ⟨target, h⟩ else .error (.stuck pos target)

/-- The offset at which the line of an offset starts. -/
def lineStart (pos : Nat) : Except Stop Nat := do
  let before ← slice text 0 pos
  .ok (lastLineStart 0 0 (Text.utf8 before))

/-- The offset at which the line of an offset ends. -/
def lineEnd (pos : Nat) : Except Stop Nat := do
  let after ← slice text pos text.size
  .ok (pos + lineLength (Text.utf8 after))

/-- Refuses the text at an offset, or at its end if the offset lies behind that. -/
def refuse {α : Type} (problem : Problem) (pos : Nat) : Except Stop α := do
  let place := min pos text.size
  let before ← slice text 0 place
  let start ← lineStart text place
  .error (.refused ⟨problem, before.lineFeeds + 1, place - start + 1⟩)

/-- The next significant byte, or the end of the text. -/
structure Next where
  offset : Nat
  column : Nat
  newLine : Bool
  atEnd : Bool

/-- What comes next at an offset. -/
def peek (pos : Nat) : Except Stop Next := do
  let mayOpen := pos == 0 || (bytesFrom text (pos - 1)).head?.any isBlankByte
  let (skipped, newLine) := skipTrivia mayOpen false (bytesFrom text pos)
  let start ← lineStart text (pos + skipped)
  .ok ⟨pos + skipped, pos + skipped - start, newLine, text.size ≤ pos + skipped⟩

/-- The text up to an offset ahead. -/
def takeUntil (pos target : Nat) : Except Stop (Text × {n : Nat // pos ≤ n ∧ n ≤ text.size}) := do
  let taken ← slice text pos target
  let target ← moveTo text pos target
  .ok (taken, target)

/-- The blanks in front that do not end a line. -/
def takeInlineBlanks (pos : Nat) : Except Stop (Text × Nat) := do
  let target := pos + inlineBlanks (bytesFrom text pos)
  let blanks ← slice text pos target
  .ok (blanks, target)

/-- Whether the marker stands alone at the start of a line, and comes next. -/
def isMarkerNext (marker : Text) (next : Next) : Except Stop Bool :=
  if next.atEnd = false ∧ next.column = 0 then do
    let after ← slice text next.offset text.size
    .ok (marker.isPrefixOf after && blankOrEndAt text (next.offset + marker.length))
  else .ok false

/-- Whether there is nothing left of the document. -/
def endsDocument (next : Next) : Except Stop Bool :=
  if next.atEnd then .ok true
  else do
    if ← isMarkerNext text ['-', '-', '-'] next then .ok true
    else isMarkerNext text ['.', '.', '.'] next

/-! ### Scalars -/

/-- The end of the quoted scalar at an offset. -/
def quotedEnd (pos : Nat) : Except Stop Nat :=
  match bytesFrom text pos with
  | [] => .error (.noByte pos)
  | quote :: bs =>
    let stop := if ascii? quote = some '\'' then singleQuotedEnd (pos + 1) bs
      else doubleQuotedEnd (pos + 1) bs
    match stop with
    | some stop => .ok stop
    | none => refuse text .unterminatedQuote pos

/-- Whether the key of a block mapping entry is at an offset. -/
def keyAt (pos : Nat) : Except Stop Bool :=
  if text.size ≤ pos then .ok false
  else do
    let stop ← match byteAt text pos with
      | some '\'' | some '"' =>
        match quotedEnd text pos with
        | .ok stop => .ok (some stop)
        | .error (.refused _) => .ok none
        | .error wrong => .error wrong
      | some '[' | some '\x7b' | some '#' | some '|' | some '>' => .ok none
      | _ => .ok (some (plainEnd false false pos pos (bytesFrom text pos)))
    match stop with
    | none => .ok false
    | some stop =>
      let colon := stop + inlineBlanks (bytesFrom text stop)
      .ok (stop != pos && byteAt text colon == some ':' && blankOrEndAt text (colon + 1))

/-- What is wrong with a scalar at an offset, if its first byte says so. -/
def unsupportedAt (pos : Nat) : Option Problem :=
  match byteAt text pos with
  | some '&' => some .anchorUsed
  | some '*' => some .aliasUsed
  | some '!' => some .tag
  | some '%' => some .directive
  | some '@' => some .reservedIndicator
  | some '\x60' => some .reservedIndicator
  | some '?' => if blankOrEndAt text (pos + 1) then some .complexKey else none
  | _ => none

/-- The scalar at `place`, behind what lies between it and the offset. -/
def readScalar (inFlow : Bool) (place pos : Nat) : Except Stop (Scalar × Nat) :=
  match unsupportedAt text place with
  | some problem => refuse text problem place
  | none => do
    let (lead, ⟨start, _⟩) ← takeUntil text pos place
    if byteAt text start = some '\'' ∨ byteAt text start = some '"' then do
      let stop ← quotedEnd text start
      let inner ← slice text (start + 1) (stop - 1)
      let ⟨last, _⟩ ← moveTo text start stop
      let style := if byteAt text start = some '\'' then .singleQuoted else .doubleQuoted
      .ok (.fresh lead style inner, last)
    else do
      let stop := plainEnd inFlow false start start (bytesFrom text start)
      if stop = start then refuse text .scalarExpected start
      else do
        let inner ← slice text start stop
        let ⟨last, _⟩ ← moveTo text start stop
        .ok (.fresh lead .plain inner, last)

/-- The key of a block mapping at an offset, with the blanks before its colon. -/
def readKey (pos : Nat) : Except Stop ((Scalar × Text) × Nat) := do
  let (key, last) ← readScalar text false pos pos
  let (gap, last) ← takeInlineBlanks text last
  .ok ((key, gap), last + 1)

/-- The key of a flow mapping at an offset, with the blanks before its colon. -/
def readFlowKey (pos : Nat) : Except Stop ((Scalar × Text) × Nat) := do
  let (key, last) ← readScalar text true pos pos
  let (gap, last) ← takeInlineBlanks text last
  if byteAt text last = some ':' then .ok ((key, gap), last + 1)
  else refuse text .flowColonExpected last

/-- Whether a document marker stands alone at the start of a line. -/
def markerAt (pos : Nat) : Except Stop Bool := do
  let after ← slice text pos text.size
  .ok ((['-', '-', '-'].isPrefixOf after || ['.', '.', '.'].isPrefixOf after) &&
    blankOrEndAt text (pos + 3))

/-- Whether a line with content ends a literal or folded scalar. Only a line that is not indented is
looked at for a marker. -/
def lineEnds (parent : Int) (line : Text) (pos : Nat) : Except Stop Bool :=
  if (indentation line : Int) ≤ parent then .ok true
  else if indentation line = 0 then markerAt text pos
  else .ok false

/-- The end of a literal or folded scalar. Its lines have been scanned up to the line end `pos`, and
up to `stop` without those of white space alone at the end. The column of the collection around it
is `parent`, or below zero. -/
def contentEnd (parent : Int) (pos stop : Nat) : Except Stop Nat :=
  if pos < text.size then do
    let next ← lineEnd text (pos + 1)
    let line ← slice text (pos + 1) next
    let ⟨next, _⟩ ← advance text pos next
    if line.isBlank then contentEnd parent next stop
    else do
      if ← lineEnds text parent line (pos + 1) then .ok stop
      else contentEnd parent next next
  else .ok stop
termination_by text.size - pos

/-- The literal or folded scalar at `place`. -/
def readBlockScalar (style : ScalarStyle) (parent : Int) (place pos : Nat) :
    Except Stop (Scalar × Nat) := do
  let (lead, ⟨start, _⟩) ← takeUntil text pos place
  let header ← lineEnd text (start + 1)
  let stop ← contentEnd text parent header header
  let inner ← slice text (start + 1) stop
  let ⟨last, _⟩ ← moveTo text start stop
  .ok (.fresh lead style inner, last)

/-! ### Flow collections -/

/-- After an item of a flow collection: the comma and what stands before it, or nothing where the
collection closes. -/
def takeComma (closing : Char) (pos : Nat) : Except Stop (Option Text × Nat) := do
  let next ← peek text pos
  if next.atEnd then refuse text .unterminatedFlowCollection next.offset
  else if byteAt text next.offset = some ',' then do
    let (lead, ⟨here, _⟩) ← takeUntil text pos next.offset
    .ok (some lead, here + 1)
  else if byteAt text next.offset = some closing then .ok (none, pos)
  else refuse text .flowCommaExpected next.offset

mutual

/-- The value that comes next inside a flow collection. -/
def readFlowValue (next : Next) (pos : Nat) : Except Stop (Value × Nat) :=
  if byteAt text next.offset = some '[' then do
    let (opening, ⟨here, _⟩) ← takeUntil text pos next.offset
    let ⟨inside, _⟩ ← advance text here (here + 1)
    let ((items, closing), last) ← readFlowItems inside
    .ok (.sequence ⟨.unnumbered, .flow opening closing, items⟩, last)
  else if byteAt text next.offset = some '\x7b' then do
    let (opening, ⟨here, _⟩) ← takeUntil text pos next.offset
    let ⟨inside, _⟩ ← advance text here (here + 1)
    let ((entries, closing), last) ← readFlowEntries inside
    .ok (.mapping ⟨.unnumbered, .flow opening closing, entries⟩, last)
  else do
    let (scalar, last) ← readScalar text true next.offset pos
    .ok (.scalar scalar, last)
termination_by 2 * (text.size - pos)
decreasing_by all_goals omega

/-- The items of a flow sequence up to its bracket, with what stands before the bracket. -/
def readFlowItems (pos : Nat) : Except Stop ((List Item × Text) × Nat) := do
  let next ← peek text pos
  if next.atEnd then refuse text .unterminatedFlowSequence next.offset
  else do
    let (lead, ⟨here, _⟩) ← takeUntil text pos next.offset
    if byteAt text next.offset = some ']' then do
      let ⟨last, _⟩ ← advance text pos (here + 1)
      .ok (([], lead), last)
    else do
      let next ← peek text here
      let (value, last) ← readFlowValue next here
      let (comma, last) ← takeComma text ']' last
      let ⟨mid, _⟩ ← advance text pos last
      let ((items, closing), last) ← readFlowItems mid
      .ok ((⟨.unnumbered, lead, false, value, comma⟩ :: items, closing), last)
termination_by 2 * (text.size - pos) + 1
decreasing_by all_goals omega

/-- The entries of a flow mapping up to its brace, with what stands before the brace. -/
def readFlowEntries (pos : Nat) : Except Stop ((List Entry × Text) × Nat) := do
  let next ← peek text pos
  if next.atEnd then refuse text .unterminatedFlowMapping next.offset
  else do
    let (lead, ⟨here, _⟩) ← takeUntil text pos next.offset
    if byteAt text next.offset = some '\x7d' then do
      let ⟨last, _⟩ ← advance text pos (here + 1)
      .ok (([], lead), last)
    else do
      let ((key, gap), last) ← readFlowKey text here
      let ⟨colon, _⟩ ← advance text pos last
      let (value, last) ← readFlowEntryValue colon
      let (comma, last) ← takeComma text '\x7d' last
      let ⟨mid, _⟩ ← advance text pos last
      let ((entries, closing), last) ← readFlowEntries mid
      .ok ((⟨.unnumbered, lead, key, gap, value, comma⟩ :: entries, closing), last)
termination_by 2 * (text.size - pos) + 1
decreasing_by all_goals omega

/-- The value after the colon of a flow mapping entry, empty before a comma or the
closing brace. -/
def readFlowEntryValue (pos : Nat) : Except Stop (Value × Nat) := do
  let next ← peek text pos
  if next.atEnd then refuse text .unterminatedFlowMapping next.offset
  else if byteAt text next.offset = some ',' ∨ byteAt text next.offset = some '\x7d' then
    .ok (.empty, pos)
  else readFlowValue next pos
termination_by 2 * (text.size - pos) + 1
decreasing_by all_goals omega

end

/-! ### Values in block context -/

/-- A value that opens no block collection. -/
def readPlainValue (parent : Int) (next : Next) (pos : Nat) : Except Stop (Value × Nat) :=
  match byteAt text next.offset with
  | some '[' => readFlowValue text next pos
  | some '\x7b' => readFlowValue text next pos
  | some '|' => do
    let (scalar, last) ← readBlockScalar text .literal parent next.offset pos
    .ok (.scalar scalar, last)
  | some '>' => do
    let (scalar, last) ← readBlockScalar text .folded parent next.offset pos
    .ok (.scalar scalar, last)
  | _ => do
    let (scalar, last) ← readScalar text false next.offset pos
    .ok (.scalar scalar, last)

/-- A value on the line of its key, where no block collection may open. -/
def readInlineValue (parent : Int) (next : Next) (pos : Nat) : Except Stop (Value × Nat) :=
  if dashAt text next.offset then refuse text .itemNotAllowed next.offset
  else do
    if ← keyAt text next.offset then refuse text .mappingNotAllowed next.offset
    else readPlainValue text parent next pos

/-- Whether the block mapping at `column` goes on with what comes next. It has a first entry. -/
def entryFollows (column : Nat) (first : Bool) (next : Next) : Except Stop Bool :=
  if first then .ok true
  else if next.atEnd ∨ next.column < column then .ok false
  else do
    if ← endsDocument text next then .ok false
    else if next.newLine = false then refuse text .contentAfterMappingValue next.offset
    else if column < next.column then refuse text .entryIndentation next.offset
    else .ok (!dashAt text next.offset)

/-- Whether the block sequence at `column` goes on with what comes next. It has a first item. -/
def itemFollows (column : Nat) (first : Bool) (next : Next) : Except Stop Bool :=
  if first then .ok true
  else if next.atEnd ∨ next.column < column then .ok false
  else do
    if ← endsDocument text next then .ok false
    else if dashAt text next.offset then
      if column < next.column then refuse text .itemIndentation next.offset else .ok true
    else if next.column = column then .ok false
    else refuse text .itemIndentation next.offset

mutual

/-- The value that comes next where a block collection may open. -/
def readValue (parent : Int) (next : Next) (pos : Nat) : Except Stop (Value × Nat) :=
  if dashAt text next.offset then do
    let (items, last) ← readItems next.column true pos
    .ok (.sequence ⟨.unnumbered, .block, items⟩, last)
  else do
    if ← keyAt text next.offset then do
      let (entries, last) ← readEntries next.column true pos
      .ok (.mapping ⟨.unnumbered, .block, entries⟩, last)
    else readPlainValue text parent next pos
termination_by 3 * (text.size - pos) + 1
decreasing_by all_goals omega

/-- The entries of the block mapping at `column` from the offset on, `first` where none has been
read yet. -/
def readEntries (column : Nat) (first : Bool) (pos : Nat) : Except Stop (List Entry × Nat) := do
  let next ← peek text pos
  if ← entryFollows text column first next then do
    if ← keyAt text next.offset then do
      let (lead, ⟨here, _⟩) ← takeUntil text pos next.offset
      let ((key, gap), last) ← readKey text here
      let ⟨colon, _⟩ ← advance text pos last
      let (value, last) ← readEntryValue column colon
      let ⟨mid, _⟩ ← advance text pos last
      let (entries, last) ← readEntries column false mid
      .ok (⟨.unnumbered, lead, key, gap, value, none⟩ :: entries, last)
    else refuse text .keyExpected next.offset
  else .ok ([], pos)
termination_by 3 * (text.size - pos)
decreasing_by all_goals omega

/-- The value after the colon of an entry at `column`. -/
def readEntryValue (column pos : Nat) : Except Stop (Value × Nat) := do
  let next ← peek text pos
  if ← endsDocument text next then .ok (.empty, pos)
  else if next.newLine = false then readInlineValue text column next pos
  else if column < next.column then readValue column next pos
  else if next.column = column ∧ dashAt text next.offset then do
    let (items, last) ← readItems column true pos
    .ok (.sequence ⟨.unnumbered, .block, items⟩, last)
  else .ok (.empty, pos)
termination_by 3 * (text.size - pos) + 2
decreasing_by all_goals omega

/-- The items of the block sequence at `column` from the offset on, `first` where none has been
read yet. -/
def readItems (column : Nat) (first : Bool) (pos : Nat) : Except Stop (List Item × Nat) := do
  let next ← peek text pos
  if ← itemFollows text column first next then do
    let (lead, ⟨here, _⟩) ← takeUntil text pos next.offset
    let ⟨dash, _⟩ ← advance text pos (here + 1)
    let (value, last) ← readItemValue column dash
    let ⟨mid, _⟩ ← advance text pos last
    let (items, last) ← readItems column false mid
    .ok (⟨.unnumbered, lead, true, value, none⟩ :: items, last)
  else .ok ([], pos)
termination_by 3 * (text.size - pos)
decreasing_by all_goals omega

/-- The value after the dash of an item at `column`. -/
def readItemValue (column pos : Nat) : Except Stop (Value × Nat) := do
  let next ← peek text pos
  if ← endsDocument text next then .ok (.empty, pos)
  else if next.newLine = false ∨ column < next.column then readValue column next pos
  else .ok (.empty, pos)
termination_by 3 * (text.size - pos) + 2
decreasing_by all_goals omega

end

/-! ### Documents -/

/-- The start marker of a document with what stands before it, if there is one. -/
def readDocumentStart (pos : Nat) : Except Stop (Option Text × Nat) := do
  let next ← peek text pos
  if ← isMarkerNext text ['-', '-', '-'] next then do
    let (lead, ⟨here, _⟩) ← takeUntil text pos next.offset
    .ok (some lead, here + 3)
  else .ok (none, pos)

/-- The body of a document, empty where the document ends at once. -/
def readBody (pos : Nat) : Except Stop (Value × Nat) := do
  let next ← peek text pos
  if ← endsDocument text next then .ok (.empty, pos)
  else readValue text (-1) next pos

/-- The end of a document: what stands before it, and whether it is marked. -/
def readDocumentEnd (pos : Nat) : Except Stop ((Text × Bool) × Nat) := do
  let next ← peek text pos
  if ← isMarkerNext text ['.', '.', '.'] next then do
    let (tail, ⟨here, _⟩) ← takeUntil text pos next.offset
    .ok ((tail, true), here + 3)
  else do
    if ← endsDocument text next then do
      let (tail, ⟨here, _⟩) ← takeUntil text pos next.offset
      .ok ((tail, false), here)
    else refuse text .contentAfterDocument next.offset

/-- One document. -/
def readDocument (pos : Nat) : Except Stop (Document × Nat) := do
  let (opening, last) ← readDocumentStart text pos
  let (body, last) ← readBody text last
  let ((tail, marked), last) ← readDocumentEnd text last
  .ok (⟨.unnumbered, opening.getD [], opening.isSome, body, tail, marked⟩, last)

/-- What follows the last document, where that is closed. -/
def readTrailer (closed : Bool) (next : Next) (pos : Nat) : Except Stop Text :=
  if closed then do
    let (trailer, _) ← takeUntil text pos next.offset
    .ok trailer
  else .ok []

/-- The documents of a stream and what follows the last. Every document takes something of the text,
but for the one of the empty text. -/
def readDocuments (pos : Nat) : Except Stop (List Document × Text) := do
  let (document, last) ← readDocument text pos
  let next ← peek text last
  if next.atEnd then do
    let trailer ← readTrailer text document.explicitEnd next last
    if pos < last ∨ text = [] then .ok ([document], trailer) else .error (.stuck pos last)
  else do
    let ⟨mid, _⟩ ← advance text pos last
    let (documents, trailer) ← readDocuments mid
    .ok (document :: documents, trailer)
termination_by text.size - pos
decreasing_by all_goals omega

/-- The stream in the text. -/
def parse : Except Stop Stream := do
  let (documents, trailer) ← readDocuments text 0
  .ok (Stream.numbered ⟨.unnumbered, documents, trailer⟩)

end ConfigTree.Yaml.ByOffset
