import ConfigTree.Glob.Places
import ConfigTree.Text.Utf8

/-!
Glob patterns, and which texts they match. A pattern is matched against the bytes of a text from
its start to its end. Texts are paths or other names; in paths the wildcards `?` and `*` stay
between slashes.
-/

namespace ConfigTree.Glob

inductive Token where
  | literal (char : Char)
  /-- Any byte. -/
  | any
  /-- Any bytes. -/
  | star
  /-- Any directories at the start. -/
  | leadingDirectories
  /-- Any directories between two others, the slashes included. -/
  | innerDirectories
  /-- Anything below a directory, the slash included. -/
  | inside
  | charClass (negated : Bool) (ranges : List (Char × Char))
  | alternatives (patterns : List (List Token))

/-- The tokens of a pattern in order. -/
abbrev Pattern := List Token

/-- The byte of a slash. -/
def slash : UInt8 := 0x2F

/-- The inclusive ranges of bytes between the characters of a class. The bytes of a character count
singly, so that a range joins the last byte of its first character to the first byte of its last. -/
def byteRanges (range : Char × Char) : List (UInt8 × UInt8) :=
  let low := String.utf8EncodeChar range.1
  let high := String.utf8EncodeChar range.2
  if range.1 = range.2 then low.map fun b => (b, b)
  else low.dropLast.map (fun b => (b, b)) ++ [(low.getLastD 0, high.headD 0)] ++
    high.tail.map fun b => (b, b)

/-- Whether a class has a byte among its ranges. -/
def inRanges (ranges : List (Char × Char)) (b : UInt8) : Bool :=
  (ranges.flatMap byteRanges).any fun (low, high) => low ≤ b && b ≤ high

mutual

/-- Whether a token stands for nothing at all: alternatives that are all without tokens. -/
def Token.isVoid : Token → Bool
  | .alternatives patterns => allVoid patterns
  | _ => false

def allVoid : List (List Token) → Bool
  | [] => true
  | p :: ps => patternIsVoid p && allVoid ps

def patternIsVoid : List Token → Bool
  | [] => true
  | t :: ts => t.isVoid && patternIsVoid ts

end

mutual

/-- The places where the token matches some bytes up to a place of `rest` that fits. `inPath` keeps
wildcards from matching slashes. -/
def Token.before (inPath : Bool) {s : List UInt8} (rest : Places s) : Token → Places s
  | .literal c => rest.afterBytes (String.utf8EncodeChar c)
  | .any => rest.afterOne fun b => !(inPath && b == slash)
  | .star => rest.afterSome fun b => !(inPath && b == slash)
  | .leadingDirectories => rest.or (rest.afterOne (· == slash)).afterAny
  | .innerDirectories => (rest.or (rest.afterOne (· == slash)).afterAny).afterOne (· == slash)
  | .inside => rest.afterAny.afterOne (· == slash)
  | .charClass negated ranges => rest.afterOne fun b => inRanges ranges b != negated
  | .alternatives patterns => if allVoid patterns then rest else anyBefore inPath rest patterns

/-- The places where one of the patterns that stand for something matches up to a
place of `rest`. -/
def anyBefore (inPath : Bool) {s : List UInt8} (rest : Places s) : List (List Token) → Places s
  | [] => .never s
  | p :: ps =>
    let others := anyBefore inPath rest ps
    if patternIsVoid p then others else (patternBefore inPath rest p).or others

/-- The places where the tokens match one after the other up to a place of `rest`. -/
def patternBefore (inPath : Bool) {s : List UInt8} (rest : Places s) : List Token → Places s
  | [] => rest
  | t :: ts => t.before inPath (patternBefore inPath rest ts)

end

/-- Whether a pattern matches a text as a whole. The pattern of leading directories alone matches
everything. -/
def Pattern.isMatch (inPath : Bool) (pattern : Pattern) (text : Text) : Bool :=
  match pattern with
  | [.leadingDirectories] => true
  | tokens => (patternBefore inPath (.ofPred List.isEmpty text.utf8) tokens).fits

end ConfigTree.Glob
