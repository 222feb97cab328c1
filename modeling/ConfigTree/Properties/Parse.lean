import ConfigTree.Properties.Escape

/-!
Reading properties files. Every text is one: what is no blank and no comment is an entry, whose key
ends at the first blank, delimiter or line end that is not escaped, and whose value runs to the end
of the first line that does not end in an escape.
-/

namespace ConfigTree.Properties

/-- The characters that may stand between entries. -/
def isSpace (c : Char) : Bool := isBlank c || isLineEnd c

/-- The key in front as written, and the rest. A backslash takes the next character with it, and
both characters of a line break that has two. -/
def scanKey : Text → Text × Text
  | [] => ([], [])
  | '\\' :: '\r' :: '\n' :: cs => let (key, rest) := scanKey cs; ('\\' :: '\r' :: '\n' :: key, rest)
  | '\\' :: c :: cs => let (key, rest) := scanKey cs; ('\\' :: c :: key, rest)
  | c :: cs =>
    if isSpace c ∨ c = '=' ∨ c = ':' then ([], c :: cs)
    else let (key, rest) := scanKey cs; (c :: key, rest)

/-- The value in front as written, and the rest. `escaped` tells that the next character is escaped,
so that a line break is part of the value. -/
def scanValue (escaped : Bool) : Text → Text × Text
  | [] => ([], [])
  | '\r' :: '\n' :: cs =>
    if escaped then let (value, rest) := scanValue false cs; ('\r' :: '\n' :: value, rest)
    else ([], '\r' :: '\n' :: cs)
  | c :: cs =>
    if isLineEnd c ∧ ¬escaped then ([], c :: cs)
    else let (value, rest) := scanValue (c = '\\' ∧ ¬escaped) cs; (c :: value, rest)

/-- The delimiter in front, and the rest. -/
def scanDelimiter : Text → Delimiter × Text
  | '=' :: cs => (.equals, cs)
  | ':' :: cs => (.colon, cs)
  | cs => (.none, cs)

/-- The entry that begins after `lead`, and the rest. Without a delimiter the blanks after the key
are all before it. -/
def readEntry (lead t : Text) : Entry × Text :=
  let (key, rest) := scanKey t
  let (gap, rest) := Text.span isBlank rest
  let (delimiter, rest) := scanDelimiter rest
  let (valueLead, rest) := if delimiter = .none then ([], rest) else Text.span isBlank rest
  let (text, rest) := scanValue false rest
  (⟨.unnumbered, lead, key, gap, delimiter, ⟨.unnumbered, valueLead, text, none⟩⟩, rest)

/-- The comment opened by `sign` after `lead`, and the rest. -/
def readComment (lead : Text) (sign : Char) (t : Text) : Comment × Text :=
  let (message, rest) := Text.span (fun c => !isLineEnd c) t
  (⟨.unnumbered, lead, sign, message⟩, rest)

/-- The content of a text and what follows the last of it, in at most `steps` steps. -/
def readContent : Nat → Text → List Content × Text
  | 0, t => ([], t)
  | steps + 1, t =>
    match Text.span isSpace t with
    | (lead, []) => ([], lead)
    | (lead, c :: cs) =>
      let (content, rest) :=
        if c = '#' ∨ c = '!' then let (comment, rest) := readComment lead c cs; (.comment comment, rest)
        else let (entry, rest) := readEntry lead (c :: cs); (.entry entry, rest)
      let (contents, tail) := readContent steps rest
      (content :: contents, tail)

/-- The content with its nodes numbered from `n` on. -/
def numberedContent (n : Nat) : List Content → List Content
  | [] => []
  | .comment c :: cs => .comment { c with id := ⟨n, 0⟩ } :: numberedContent (n + 1) cs
  | .entry e :: cs =>
    .entry { e with id := ⟨n, 0⟩, value := { e.value with id := ⟨n + 1, 0⟩ } } :: numberedContent (n + 2) cs

/-- The file in `text`. Every piece of content has a character at least, so there are no more of
them than characters. -/
def parse (text : Text) : File :=
  let (content, tail) := readContent text.length text
  ⟨⟨0, 0⟩, numberedContent 1 content, tail⟩

end ConfigTree.Properties
