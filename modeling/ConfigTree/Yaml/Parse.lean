import ConfigTree.Yaml.Print
import ConfigTree.Yaml.Scan

/-!
Reading YAML: block and flow collections, plain, quoted and block scalars, comments and streams of
documents. Every reader takes the text from a cursor on and gives what it read and the cursor after
it. Readers of nested values take a step budget; `stepBudget` is enough for any text.
-/

namespace ConfigTree.Yaml

/-- Refuses the text at `here`. -/
def fail {α : Type} (problem : Problem) (here : Cursor) : Except Failure α := .error ⟨problem, here⟩

/-- Enough steps for the values in `t`: a value nested in another takes three steps at most, and its
collection at least one character. -/
def stepBudget (t : Text) : Nat := 4 * t.length + 4

/-! ### Scalars -/

/-- The plain or quoted scalar at `tok`. -/
def readScalar (inFlow : Bool) (tok : Token) : Except Failure (Scalar × Cursor) :=
  match unsupported tok.here.rest with
  | some problem => fail problem tok.here
  | none =>
    match scanScalar inFlow tok.here.rest with
    | none => fail .unterminatedQuote tok.here
    | some ⟨style, text, rest⟩ =>
      if style = .plain ∧ text = [] then fail .scalarExpected tok.here
      else
        let scalar := Scalar.fresh tok.lead style text
        .ok (scalar, tok.here.past scalar.written rest)

/-- The literal or folded scalar whose indicator is the first character at `tok`. -/
def readBlockScalar (style : ScalarStyle) (floor : Nat) (tok : Token) (afterIndicator : Text) : Scalar × Cursor :=
  let (text, rest) := scanBlockScalar floor afterIndicator
  let scalar := Scalar.fresh tok.lead style text
  (scalar, tok.here.past scalar.written rest)

/-! ### Flow collections -/

/-- After an item of a flow collection: the comma and what stands before it, or nothing where the
collection closes. -/
def readComma (closing : Char) (cur : Cursor) : Except Failure (Option Text × Cursor) :=
  match cur.token with
  | ⟨lead, here⟩ =>
    match here.rest with
    | [] => fail .unterminatedFlowCollection here
    | c :: rest =>
      if c = ',' then .ok (some lead, here.past [','] rest)
      else if c = closing then .ok (none, cur)
      else fail .flowCommaExpected here

/-- The key of a flow mapping at `here` with the blanks before its colon. -/
def readFlowKey (here : Cursor) : Except Failure ((Scalar × Text) × Cursor) := do
  let (key, cur) ← readScalar true ⟨[], here⟩
  match Text.span isInlineBlank cur.rest with
  | (gap, ':' :: rest) => .ok ((key, gap), cur.past (gap ++ [':']) rest)
  | (gap, rest) => fail .flowColonExpected (cur.past gap rest)

mutual

/-- The value at `tok` inside a flow collection. -/
def readFlowValue : Nat → Token → Except Failure (Value × Cursor)
  | 0, tok => fail .outOfSteps tok.here
  | steps + 1, tok =>
    match tok.here.rest with
    | '[' :: rest => do
      let ((items, closing), cur) ← readFlowItems steps (tok.here.past ['['] rest)
      .ok (.sequence ⟨.unnumbered, .flow tok.lead closing, items⟩, cur)
    | '{' :: rest => do
      let ((entries, closing), cur) ← readFlowEntries steps (tok.here.past ['{'] rest)
      .ok (.mapping ⟨.unnumbered, .flow tok.lead closing, entries⟩, cur)
    | _ => do
      let (scalar, cur) ← readScalar true tok
      .ok (.scalar scalar, cur)

/-- The items of a flow sequence up to its bracket, with what stands before the bracket. -/
def readFlowItems : Nat → Cursor → Except Failure ((List Item × Text) × Cursor)
  | 0, cur => fail .outOfSteps cur
  | steps + 1, cur =>
    match cur.token with
    | ⟨lead, here⟩ =>
      match here.rest with
      | [] => fail .unterminatedFlowSequence here
      | ']' :: rest => .ok (([], lead), here.past [']'] rest)
      | _ => do
        let (value, cur) ← readFlowValue steps ⟨[], here⟩
        let (comma, cur) ← readComma ']' cur
        let ((items, closing), cur) ← readFlowItems steps cur
        .ok ((⟨.unnumbered, lead, false, value, comma⟩ :: items, closing), cur)

/-- The entries of a flow mapping up to its brace, with what stands before the brace. -/
def readFlowEntries : Nat → Cursor → Except Failure ((List Entry × Text) × Cursor)
  | 0, cur => fail .outOfSteps cur
  | steps + 1, cur =>
    match cur.token with
    | ⟨lead, here⟩ =>
      match here.rest with
      | [] => fail .unterminatedFlowMapping here
      | '}' :: rest => .ok (([], lead), here.past ['}'] rest)
      | _ => do
        let ((key, gap), cur) ← readFlowKey here
        let (value, cur) ← readFlowEntryValue steps cur
        let (comma, cur) ← readComma '}' cur
        let ((entries, closing), cur) ← readFlowEntries steps cur
        .ok ((⟨.unnumbered, lead, key, gap, value, comma⟩ :: entries, closing), cur)

/-- The value after the colon of a flow mapping entry, empty before a comma or the closing brace. -/
def readFlowEntryValue : Nat → Cursor → Except Failure (Value × Cursor)
  | 0, cur => fail .outOfSteps cur
  | steps + 1, cur =>
    match cur.token.here.rest with
    | [] => fail .unterminatedFlowMapping cur.token.here
    | c :: _ => if c = ',' ∨ c = '}' then .ok (.empty, cur) else readFlowValue steps cur.token

end

/-! ### Values in block context -/

/-- A value that opens no block collection: a flow collection, or a scalar of any style. -/
def readPlainValue (floor : Nat) (tok : Token) : Except Failure (Value × Cursor) :=
  match tok.here.rest with
  | '[' :: _ => readFlowValue (stepBudget tok.here.rest) tok
  | '{' :: _ => readFlowValue (stepBudget tok.here.rest) tok
  | '|' :: rest => let (scalar, cur) := readBlockScalar .literal floor tok rest; .ok (.scalar scalar, cur)
  | '>' :: rest => let (scalar, cur) := readBlockScalar .folded floor tok rest; .ok (.scalar scalar, cur)
  | _ => do
    let (scalar, cur) ← readScalar false tok
    .ok (.scalar scalar, cur)

/-- A value on the line of its key, where no block collection may open. -/
def readInlineValue (floor : Nat) (tok : Token) : Except Failure (Value × Cursor) :=
  if opensItem tok.here.rest then fail .itemNotAllowed tok.here
  else if opensEntry tok.here.rest then fail .mappingNotAllowed tok.here
  else readPlainValue floor tok

/-- Where the next entry of the block mapping at `column` stands, or nothing where the
mapping ends. -/
def nextEntry (column : Nat) (cur : Cursor) : Except Failure (Option Token) :=
  let tok := cur.token
  if tok.endsDocument ∨ tok.column < column then .ok none
  else if ¬tok.onNewLine then .error ⟨.contentAfterMappingValue, tok.here⟩
  else if column < tok.column then .error ⟨.entryIndentation, tok.here⟩
  else if opensItem tok.here.rest then .ok none
  else .ok (some tok)

/-- Where the next item of the block sequence at `column` stands, or nothing where the
sequence ends. -/
def nextItem (column : Nat) (cur : Cursor) : Except Failure (Option Token) :=
  let tok := cur.token
  if tok.endsDocument ∨ tok.column < column then .ok none
  else if opensItem tok.here.rest then
    if column < tok.column then .error ⟨.itemIndentation, tok.here⟩ else .ok (some tok)
  else if tok.column = column then .ok none
  else .error ⟨.itemIndentation, tok.here⟩

/-- The key at `tok` and the cursor after its colon. -/
def readKey (tok : Token) : Except Failure ((Scalar × Text) × Cursor) :=
  match scanKey tok.here.rest with
  | none => fail .keyExpected tok.here
  | some ⟨style, text, gap, rest⟩ =>
    match unsupported tok.here.rest with
    | some problem => fail problem tok.here
    | none =>
      let key := Scalar.fresh [] style text
      .ok ((key, gap), tok.here.past (key.written ++ gap ++ [':']) rest)

mutual

/-- The value at `tok` where a block collection may open. `floor` is the least indentation of the
lines of a literal or folded scalar. -/
def readValue : Nat → Nat → Token → Except Failure (Value × Cursor)
  | 0, _, tok => fail .outOfSteps tok.here
  | steps + 1, floor, tok =>
    if opensItem tok.here.rest then do
      let (items, cur) ← readItems steps tok.column tok
      .ok (.sequence ⟨.unnumbered, .block, items⟩, cur)
    else if opensEntry tok.here.rest then do
      let (entries, cur) ← readEntries steps tok.column tok
      .ok (.mapping ⟨.unnumbered, .block, entries⟩, cur)
    else readPlainValue floor tok
termination_by structural steps _ _ => steps

/-- The entries of a block mapping at `column` from the one at `tok` on. -/
def readEntries : Nat → Nat → Token → Except Failure (List Entry × Cursor)
  | 0, _, tok => fail .outOfSteps tok.here
  | steps + 1, column, tok => do
    let ((key, gap), cur) ← readKey tok
    let (value, cur) ← readEntryValue steps column cur
    let entry : Entry := ⟨.unnumbered, tok.lead, key, gap, value, none⟩
    match ← nextEntry column cur with
    | none => .ok ([entry], cur)
    | some tok => do
      let (entries, cur) ← readEntries steps column tok
      .ok (entry :: entries, cur)
termination_by structural steps _ _ => steps

/-- The value after the colon of an entry at `column`: on the same line, on later lines further in,
or a sequence on later lines at the column of the key. -/
def readEntryValue : Nat → Nat → Cursor → Except Failure (Value × Cursor)
  | 0, _, cur => fail .outOfSteps cur
  | steps + 1, column, cur =>
    let tok := cur.token
    if tok.endsDocument then .ok (.empty, cur)
    else if ¬tok.onNewLine then readInlineValue (column + 1) tok
    else if column < tok.column then readValue steps (column + 1) tok
    else if tok.column = column ∧ opensItem tok.here.rest then do
      let (items, cur) ← readItems steps column tok
      .ok (.sequence ⟨.unnumbered, .block, items⟩, cur)
    else .ok (.empty, cur)
termination_by structural steps _ _ => steps

/-- The items of a block sequence at `column` from the one whose dash is at `tok` on. -/
def readItems : Nat → Nat → Token → Except Failure (List Item × Cursor)
  | 0, _, tok => fail .outOfSteps tok.here
  | steps + 1, column, tok => do
    let (value, cur) ← readItemValue steps column (tok.here.past ['-'] (tok.here.rest.drop 1))
    let item : Item := ⟨.unnumbered, tok.lead, true, value, none⟩
    match ← nextItem column cur with
    | none => .ok ([item], cur)
    | some tok => do
      let (items, cur) ← readItems steps column tok
      .ok (item :: items, cur)
termination_by structural steps _ _ => steps

/-- The value after the dash of an item at `column`: on the same line, or on later lines
further in. -/
def readItemValue : Nat → Nat → Cursor → Except Failure (Value × Cursor)
  | 0, _, cur => fail .outOfSteps cur
  | steps + 1, column, cur =>
    let tok := cur.token
    if tok.endsDocument ∨ (tok.onNewLine ∧ tok.column ≤ column) then .ok (.empty, cur)
    else readValue steps (column + 1) tok
termination_by structural steps _ _ => steps

end

/-! ### Documents -/

/-- The start marker of a document with what stands before it, if there is one. -/
def readDocumentStart (cur : Cursor) : Option Text × Cursor :=
  let tok := cur.token
  if tok.atDocumentStart then (some tok.lead, tok.here.past ['-', '-', '-'] (tok.here.rest.drop 3))
  else (none, cur)

/-- The body of a document, empty where the document ends at once. -/
def readBody (cur : Cursor) : Except Failure (Value × Cursor) :=
  let tok := cur.token
  if tok.endsDocument then .ok (.empty, cur)
  else readValue (stepBudget tok.here.rest) 0 tok

/-- The end of a document: what stands before it, and whether it is marked. -/
def readDocumentEnd (cur : Cursor) : Except Failure ((Text × Bool) × Cursor) :=
  let tok := cur.token
  if tok.atDocumentEnd then
    .ok ((tok.lead, true), tok.here.past ['.', '.', '.'] (tok.here.rest.drop 3))
  else if tok.endsDocument then .ok ((tok.lead, false), tok.here)
  else fail .contentAfterDocument tok.here

/-- One document. -/
def readDocument (cur : Cursor) : Except Failure (Document × Cursor) := do
  let (opening, cur) := readDocumentStart cur
  let (body, cur) ← readBody cur
  let ((tail, marked), cur) ← readDocumentEnd cur
  .ok (⟨.unnumbered, opening.getD [], opening.isSome, body, tail, marked⟩, cur)

/-- The documents of a stream and what follows the last. Text after an unmarked end belongs to
it already. -/
def readDocuments : Nat → Cursor → Except Failure (List Document × Text)
  | 0, cur => .error ⟨.outOfSteps, cur⟩
  | steps + 1, cur => do
    let (document, cur) ← readDocument cur
    if cur.token.atEnd then .ok ([document], if document.explicitEnd then cur.token.lead else [])
    else do
      let (documents, trailer) ← readDocuments steps cur
      .ok (document :: documents, trailer)

/-- The stream in `text`, its nodes not yet numbered. -/
def readStream (text : Text) : Except Failure Stream := do
  let (documents, trailer) ← readDocuments (stepBudget text) (.start text)
  .ok ⟨.unnumbered, documents, trailer⟩

end ConfigTree.Yaml
