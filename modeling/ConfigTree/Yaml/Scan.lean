import ConfigTree.Text.Blank
import ConfigTree.Yaml.Problem
import ConfigTree.Yaml.Tree

/-!
Where scalars end. Each scanner cuts a text into what belongs to the scalar and what is left; none
of them looks at anything but the text in front of it.
-/

namespace ConfigTree.Yaml

/-- The rest of a single-quoted scalar up to its closing quote, and what follows. A quote written
twice does not close. -/
def scanSingleQuoted : Text → Option (Text × Text)
  | [] => none
  | '\'' :: '\'' :: cs => (scanSingleQuoted cs).map fun (text, rest) => ('\'' :: '\'' :: text, rest)
  | c :: cs =>
    if c = '\'' then some ([], cs)
    else (scanSingleQuoted cs).map fun (text, rest) => (c :: text, rest)

/-- The rest of a double-quoted scalar up to its closing quote, and what follows. A backslash takes
the next character with it. -/
def scanDoubleQuoted : Text → Option (Text × Text)
  | [] => none
  | '\\' :: c :: cs => (scanDoubleQuoted cs).map fun (text, rest) => ('\\' :: c :: text, rest)
  | c :: cs =>
    if c = '\\' then none
    else if c = '"' then some ([], cs)
    else (scanDoubleQuoted cs).map fun (text, rest) => (c :: text, rest)

/-- The characters that separate or close in flow collections. -/
def isFlowIndicator (c : Char) : Bool := c == ',' || c == '[' || c == ']' || c == '{' || c == '}'

/-- Whether a colon before `after` ends a plain scalar. -/
def colonEnds (inFlow : Bool) : Text → Bool
  | [] => true
  | c :: _ => isBlank c || (inFlow && isFlowIndicator c)

/-- The longest run of characters that a plain scalar and the blanks after it may have. `afterBlank`
tells that the run has just had a blank, after which a number sign opens a comment. -/
def plainRun (inFlow afterBlank : Bool) : Text → Text
  | [] => []
  | c :: cs =>
    if c = '\n' ∨ c = '\r' then []
    else if c = ':' ∧ colonEnds inFlow cs then []
    else if c = '#' ∧ afterBlank then []
    else if inFlow ∧ isFlowIndicator c then []
    else c :: plainRun inFlow (isBlank c) cs

/-- A plain scalar, without the blanks after it, and what follows. -/
def scanPlain (inFlow : Bool) (t : Text) : Text × Text :=
  let text := Text.trimEndWhile isInlineBlank (plainRun inFlow false t)
  (text, t.drop text.length)

/-- A scalar as found in a text: its style and text, and what follows it. -/
structure Scanned where
  style : ScalarStyle
  text : Text
  rest : Text
deriving DecidableEq, Repr

/-- The plain or quoted scalar in front, if a quote that opens also closes. -/
def scanScalar (inFlow : Bool) : Text → Option Scanned
  | '\'' :: cs => (scanSingleQuoted cs).map fun (text, rest) => ⟨.singleQuoted, text, rest⟩
  | '"' :: cs => (scanDoubleQuoted cs).map fun (text, rest) => ⟨.doubleQuoted, text, rest⟩
  | cs => let (text, rest) := scanPlain inFlow cs; some ⟨.plain, text, rest⟩

/-- A key of a block mapping as found in a text: the scalar, the blanks between it and its colon,
and what follows the colon. -/
structure ScannedKey where
  style : ScalarStyle
  text : Text
  gap : Text
  rest : Text
deriving DecidableEq, Repr

/-- The characters that no key of a block mapping begins with. -/
def cannotOpenKey : Text → Bool
  | [] => true
  | c :: _ => c == '[' || c == '{' || c == '#' || c == '|' || c == '>'

/-- The key of a block mapping in front: a scalar before a colon that stands before a blank
or the end. -/
def scanKey (t : Text) : Option ScannedKey :=
  if cannotOpenKey t then none
  else match scanScalar false t with
    | none => none
    | some ⟨style, text, rest⟩ =>
      if style = .plain ∧ text = [] then none
      else match Text.span isInlineBlank rest with
        | (gap, ':' :: after) => if blankOrEnd after then some ⟨style, text, gap, after⟩ else none
        | _ => none

/-- Whether a block mapping entry opens here. -/
def opensEntry (t : Text) : Bool := (scanKey t).isSome

/-- What is wrong with a scalar that begins like this, if its first character says so. -/
def unsupported : Text → Option Problem
  | '&' :: _ => some .anchorUsed
  | '*' :: _ => some .aliasUsed
  | '!' :: _ => some .tag
  | '%' :: _ => some .directive
  | '@' :: _ => some .reservedIndicator
  | '\x60' :: _ => some .reservedIndicator
  | '?' :: cs => if blankOrEnd cs then some .complexKey else none
  | _ => none

/-! ### Literal and folded scalars -/

/-- The number of spaces that a line begins with. -/
def indentation (line : Text) : Nat := (line.takeWhile (· = ' ')).length

/-- The lines of a literal or folded scalar whose lines have at least `floor` leading spaces: those
up to the last line with content. Lines of white space alone belong to it where content follows. -/
def contentLines (floor : Nat) : List Text → List Text
  | [] => []
  | line :: lines =>
    if line.isBlank then
      match contentLines floor lines with
      | [] => []
      | kept => line :: kept
    else if indentation line < floor ∨ isMarker line then []
    else line :: contentLines floor lines

/-- The text of a literal or folded scalar after its indicator, and what follows. -/
def scanBlockScalar (floor : Nat) (t : Text) : Text × Text :=
  let text := match Text.splitOn '\n' t with
    | [] => []
    | header :: lines => Text.joinWith '\n' (header :: contentLines floor lines)
  (text, t.drop text.length)

end ConfigTree.Yaml
