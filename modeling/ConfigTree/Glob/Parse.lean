import ConfigTree.Glob.Pattern

/-!
Reading glob patterns. `?`, `*` and `**`, classes between square brackets, alternatives between
braces, and a backslash before a character that stands for itself.
-/

namespace ConfigTree.Glob

/-- A class while it is read: the ranges so far, the last one first, and whether a dash has just
been read that may join the last of them to the next character. -/
structure ClassState where
  ranges : List (Char × Char)
  dash : Bool

/-- The class with the last range drawn out to `c`, unless that would turn it round. -/
def ClassState.extend (c : Char) : ClassState → Option ClassState
  | ⟨(low, _) :: ranges, _⟩ => if c < low then none else some ⟨(low, c) :: ranges, false⟩
  | ⟨[], _⟩ => none

/-- The class with one more character. A dash stands for itself at the start, and after
another dash. -/
def ClassState.add (c : Char) (st : ClassState) : Option ClassState :=
  if st.dash then st.extend c
  else if c = '-' ∧ st.ranges ≠ [] then some { st with dash := true }
  else some ⟨(c, c) :: st.ranges, false⟩

/-- The ranges in order. A dash at the end stands for itself. -/
def ClassState.finish (st : ClassState) : List (Char × Char) :=
  ((if st.dash then [('-', '-')] else []) ++ st.ranges).reverse

/-- The rest of a class up to its closing bracket, and what follows. A bracket that comes first
stands for itself. -/
def readClass (st : ClassState) : Text → Option (List (Char × Char) × Text)
  | [] => none
  | c :: cs =>
    if c = ']' ∧ st.ranges ≠ [] then some (st.finish, cs)
    else match st.add c with
      | none => none
      | some st => readClass st cs

/-- Tokens while they are read, the last one first, with the alternatives before them between the
same braces. -/
structure Level where
  finished : List (List Token)
  tokens : List Token

/-- The levels of braces around a place in a pattern, the innermost first. -/
structure Levels where
  inner : Level
  outer : List Level

namespace Levels

def start : Levels := ⟨⟨[], []⟩, []⟩

def inBraces (ls : Levels) : Bool := !ls.outer.isEmpty

def withTokens (ls : Levels) (tokens : List Token) : Levels := { ls with inner := { ls.inner with tokens } }

def push (ls : Levels) (t : Token) : Levels := ls.withTokens (t :: ls.inner.tokens)

/-- Opens braces. -/
def openBrace (ls : Levels) : Levels := ⟨⟨[], []⟩, ls.inner :: ls.outer⟩

/-- Begins the next alternative. -/
def nextAlternative (ls : Levels) : Levels :=
  { ls with inner := ⟨ls.inner.tokens.reverse :: ls.inner.finished, []⟩ }

/-- Closes the innermost braces, if there are any. -/
def closeBrace (ls : Levels) : Option Levels :=
  match ls.outer with
  | [] => none
  | level :: outer =>
    let alternatives := (ls.inner.tokens.reverse :: ls.inner.finished).reverse
    some (Levels.push ⟨level, outer⟩ (.alternatives alternatives))

/-- The pattern, if no braces are left open. -/
def finish (ls : Levels) : Option Pattern :=
  match ls.outer with
  | [] => some ls.inner.tokens.reverse
  | _ :: _ => none

end Levels

/-- What two stars are after the tokens `tokens` and the character `before`, when `rest` follows:
the tokens with them, and whether they take a slash along. At the start of a pattern or an
alternative, and after a slash, they stand for directories if a slash or the end follows; anywhere
else they are two single stars. -/
def doubleStar (inBraces : Bool) (before : Option Char) (tokens : List Token) (rest : Text) :
    List Token × Bool :=
  let single := (.star :: .star :: tokens, false)
  let endsHere := rest = [] ∨ (inBraces ∧ (rest.head? = some ',' ∨ rest.head? = some '\x7d'))
  match tokens with
  | [] =>
    if rest = [] then ([.leadingDirectories], false)
    else if rest.head? = some '/' then ([.leadingDirectories], true)
    else single
  | last :: others =>
    if before = some '/' ∨ (inBraces ∧ (before = some ',' ∨ before = some '\x7b')) then
      let token (t : Token) : Token :=
        match last with
        | .leadingDirectories => .leadingDirectories
        | .inside => .inside
        | _ => t
      if endsHere then (token .inside :: others, false)
      else if rest.head? = some '/' then (token .innerDirectories :: others, true)
      else single
    else single

/-- Reads a pattern on from `ls`, after the character `before`. -/
def readPattern : Nat → Option Char → Levels → Text → Option Pattern
  | 0, _, _, _ => none
  | steps + 1, before, ls, t =>
    match t with
    | [] => ls.finish
    | '*' :: '*' :: rest =>
      let (tokens, takesSlash) := doubleStar ls.inBraces before ls.inner.tokens rest
      if takesSlash then readPattern steps (some '/') (ls.withTokens tokens) (rest.drop 1)
      else readPattern steps (some '*') (ls.withTokens tokens) rest
    | '\\' :: rest =>
      match rest with
      | [] => none
      | c :: rest => readPattern steps (some c) (ls.push (.literal c)) rest
    | '[' :: rest =>
      let (negated, rest) := match rest with
        | '!' :: rest => (true, rest)
        | '^' :: rest => (true, rest)
        | rest => (false, rest)
      match readClass ⟨[], false⟩ rest with
      | none => none
      | some (ranges, rest) => readPattern steps (some ']') (ls.push (.charClass negated ranges)) rest
    | c :: rest =>
      if c = '*' then readPattern steps (some c) (ls.push .star) rest
      else if c = '?' then readPattern steps (some c) (ls.push .any) rest
      else if c = '\x7b' then readPattern steps (some c) ls.openBrace rest
      else if c = '\x7d' then
        match ls.closeBrace with
        | none => none
        | some ls => readPattern steps (some c) ls rest
      else if c = ',' ∧ ls.inBraces then readPattern steps (some c) ls.nextAlternative rest
      else readPattern steps (some c) (ls.push (.literal c)) rest

/-- The pattern in a text, if it is one. -/
def parse? (t : Text) : Option Pattern := readPattern (t.length + 1) none .start t

/-- A name to compare with: a pattern, or a text that stands for itself. -/
inductive Matcher where
  | exact (text : Text)
  | pattern (pattern : Pattern)

/-- Names with `*` or `?` in them are patterns, unless they cannot be read as patterns. -/
def Matcher.ofText (t : Text) : Matcher :=
  if t.contains '*' ∨ t.contains '?' then
    match parse? t with
    | some p => .pattern p
    | none => .exact t
  else .exact t

def Matcher.isMatch (m : Matcher) (text : Text) : Bool :=
  match m with
  | .exact t => t == text
  | .pattern p => p.isMatch false text

end ConfigTree.Glob
