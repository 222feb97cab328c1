import ConfigTree.Text.Basic

/-!
Positions in a YAML text while it is read. A cursor knows what is left and the little that it must
remember of what came before: the column, in bytes, and whether a comment may open here. A token is
the next significant character together with the blanks and comments skipped to reach it.
-/

namespace ConfigTree.Yaml

/-- The characters that separate tokens. -/
def isBlank (c : Char) : Bool := c == ' ' || c == '\t' || c == '\n' || c == '\r'

/-- The blanks that do not end a line. -/
def isInlineBlank (c : Char) : Bool := c == ' ' || c == '\t'

/-- Whether a blank or the end of the text comes first. -/
def blankOrEnd : Text → Bool
  | [] => true
  | c :: _ => isBlank c

/-- The column reached after `taken`, in bytes from the last line feed. -/
def columnAfter (column : Nat) : Text → Nat
  | [] => column
  | c :: cs => columnAfter (if c = '\n' then 0 else column + c.utf8Size) cs

/-- Whether a comment may open after `taken`: at the start of a text, and after a blank. -/
def openAfter (before : Bool) : Text → Bool
  | [] => before
  | c :: cs => openAfter (isBlank c) cs

structure Cursor where
  column : Nat
  /-- Whether a comment may open here. -/
  commentMayOpen : Bool
  rest : Text
deriving DecidableEq, Repr

namespace Cursor

/-- The start of a text. -/
def start (text : Text) : Cursor := ⟨0, true, text⟩

/-- The cursor after `taken`, when `rest` is what is left then. -/
def past (cur : Cursor) (taken rest : Text) : Cursor :=
  ⟨columnAfter cur.column taken, openAfter cur.commentMayOpen taken, rest⟩

@[simp] theorem rest_past (cur : Cursor) (taken rest : Text) : (cur.past taken rest).rest = rest := rfl

@[simp] theorem rest_start (text : Text) : (start text).rest = text := rfl

end Cursor

theorem columnAfter_append (column : Nat) (s t : Text) :
    columnAfter column (s ++ t) = columnAfter (columnAfter column s) t := by
  induction s generalizing column with
  | nil => rfl
  | cons c cs ih => exact ih _

theorem openAfter_append (before : Bool) (s t : Text) :
    openAfter before (s ++ t) = openAfter (openAfter before s) t := by
  induction s generalizing before with
  | nil => rfl
  | cons c cs ih => exact ih _

theorem Cursor.past_past (cur : Cursor) (s t r r' : Text) :
    (cur.past s r).past t r' = cur.past (s ++ t) r' := by
  simp [Cursor.past, columnAfter_append, openAfter_append]

/-! ### Trivia -/

/-- The blanks and comments in front, and the rest. A comment opens at a number sign where `mayOpen`
allows it and ends before the next line feed; `inComment` tells that one is open. -/
def trivia (mayOpen inComment : Bool) : Text → Text × Text
  | [] => ([], [])
  | c :: cs =>
    if inComment then
      let (taken, rest) := trivia (isBlank c) (c ≠ '\n') cs
      (c :: taken, rest)
    else if isBlank c then
      let (taken, rest) := trivia true false cs
      (c :: taken, rest)
    else if c = '#' ∧ mayOpen then
      let (taken, rest) := trivia false true cs
      (c :: taken, rest)
    else ([], c :: cs)

@[simp] theorem trivia_append (mayOpen inComment : Bool) (t : Text) :
    (trivia mayOpen inComment t).1 ++ (trivia mayOpen inComment t).2 = t := by
  fun_induction trivia mayOpen inComment t <;> simp_all

/-- The next significant character, or the end of the text, with the trivia in front of it. -/
structure Token where
  lead : Text
  here : Cursor
deriving DecidableEq, Repr

/-- The token ahead. -/
def Cursor.token (cur : Cursor) : Token :=
  let (lead, rest) := trivia cur.commentMayOpen false cur.rest
  ⟨lead, cur.past lead rest⟩

theorem Cursor.lead_append_token (cur : Cursor) : cur.token.lead ++ cur.token.here.rest = cur.rest :=
  trivia_append _ _ _

namespace Token

/-- Whether the text ends here. -/
def atEnd (tok : Token) : Bool := tok.here.rest.isEmpty

/-- Whether the token stands on a later line than the text before its lead. -/
def onNewLine (tok : Token) : Bool := tok.lead.contains '\n'

def column (tok : Token) : Nat := tok.here.column

end Token

/-! ### Indicators -/

/-- Whether an item of a block sequence opens here. -/
def opensItem : Text → Bool
  | '-' :: cs => blankOrEnd cs
  | _ => false

/-- Whether the three characters of a document start stand alone here. -/
def opensDocument : Text → Bool
  | '-' :: '-' :: '-' :: cs => blankOrEnd cs
  | _ => false

/-- Whether the three characters of a document end stand alone here. -/
def closesDocument : Text → Bool
  | '.' :: '.' :: '.' :: cs => blankOrEnd cs
  | _ => false

/-- Whether a document marker of either kind stands alone here. -/
def isMarker (t : Text) : Bool := opensDocument t || closesDocument t

namespace Token

/-- Markers count at the start of a line only. -/
def atDocumentStart (tok : Token) : Bool := tok.column == 0 && opensDocument tok.here.rest

def atDocumentEnd (tok : Token) : Bool := tok.column == 0 && closesDocument tok.here.rest

def atMarker (tok : Token) : Bool := tok.atDocumentStart || tok.atDocumentEnd

/-- Whether there is nothing left of the document. -/
def endsDocument (tok : Token) : Bool := tok.atEnd || tok.atMarker

end Token

end ConfigTree.Yaml
