import ConfigTree.Json.Number
import ConfigTree.Json.Value

/-!
Reading JSON. Readers take what they know from the front of a text and give the rest back. Objects
keep members of one name apart.
-/

namespace ConfigTree.Json

/-- White space between the parts of a value. -/
def isGap (c : Char) : Bool := c == ' ' || c == '\n' || c == '\t' || c == '\r'

def skipGap (t : Text) : Text := t.dropWhile isGap

/-! ### Strings -/

/-- What a backslash and a character stand for. -/
def escaped? : Char → Option Char
  | '"' => some '"'
  | '\\' => some '\\'
  | '/' => some '/'
  | 'b' => some '\x08'
  | 'f' => some '\x0c'
  | 'n' => some '\n'
  | 'r' => some '\r'
  | 't' => some '\t'
  | _ => none

def isHighSurrogate (n : Nat) : Bool := 0xD800 ≤ n && n < 0xDC00

def isLowSurrogate (n : Nat) : Bool := 0xDC00 ≤ n && n < 0xE000

/-- The character that two surrogates stand for. -/
def ofSurrogates (high low : Nat) : Char := Char.ofNat (0x10000 + (high - 0xD800) * 0x400 + (low - 0xDC00))

/-- Reads a string after its first quote. -/
def readString : Text → Option (Text × Text)
  | [] => none
  | '\\' :: 'u' :: a :: b :: c :: d :: t => do
    let n ← Text.digits? 16 [a, b, c, d]
    if isHighSurrogate n then
      match t with
      | '\\' :: 'u' :: a :: b :: c :: d :: t =>
        let m ← Text.digits? 16 [a, b, c, d]
        if isLowSurrogate m then (readString t).map fun (s, rest) => (ofSurrogates n m :: s, rest) else none
      | _ => none
    else if isLowSurrogate n then none
    else (readString t).map fun (s, rest) => (Char.ofNat n :: s, rest)
  | '\\' :: c :: t => do
    let c ← escaped? c
    (readString t).map fun (s, rest) => (c :: s, rest)
  | c :: t =>
    if c = '"' then some ([], t)
    else if c.toNat < 0x20 then none
    else (readString t).map fun (s, rest) => (c :: s, rest)

/-! ### Values -/

variable {α : Type}

/-- Reads what `read` reads, with commas between, up to the character `closing`. -/
def readSeparated (read : Text → Option (α × Text)) (closing : Char) : Nat → Text → Option (List α × Text)
  | 0, _ => none
  | steps + 1, t => do
    let (a, t) ← read (skipGap t)
    match skipGap t with
    | [] => none
    | c :: t =>
      if c = ',' then (readSeparated read closing steps t).map fun (as, rest) => (a :: as, rest)
      else if c = closing then some ([a], t)
      else none

/-- Reads the inside of brackets, which may be empty. -/
def readBracketed (read : Text → Option (α × Text)) (closing : Char) (t : Text) : Option (List α × Text) :=
  if (skipGap t).head? = some closing then some ([], (skipGap t).drop 1)
  else readSeparated read closing t.length t

/-- Reads a member of an object whose value `read` reads. -/
def readMember (read : Text → Option (α × Text)) : Text → Option ((Text × α) × Text)
  | '"' :: t => do
    let (name, t) ← readString t
    match skipGap t with
    | ':' :: t => (read (skipGap t)).map fun (a, rest) => ((name, a), rest)
    | _ => none
  | _ => none

/-- Reads a word. -/
def readWord (word : Text) (v : Value) (t : Text) : Option (Value × Text) :=
  if word.isPrefixOf t then some (v, t.drop word.length) else none

/-- Reads a value in which brackets nest at most `depth` deep. -/
def readValue : Nat → Text → Option (Value × Text)
  | _, [] => none
  | 0, c :: t => if c = '[' ∨ c = '\x7b' then none else readScalar c t
  | depth + 1, c :: t =>
    if c = '[' then (readBracketed (readValue depth) ']' t).map fun (vs, rest) => (.array vs, rest)
    else if c = '\x7b' then
      (readBracketed (readMember (readValue depth)) '\x7d' t).map fun (ms, rest) => (.object ms, rest)
    else readScalar c t
where
  /-- Reads a value without brackets that begins with `c`. -/
  readScalar (c : Char) (t : Text) : Option (Value × Text) :=
    if c = '"' then (readString t).map fun (s, rest) => (.string s, rest)
    else if c = 'n' then readWord "null".toList .null (c :: t)
    else if c = 't' then readWord "true".toList (.bool true) (c :: t)
    else if c = 'f' then readWord "false".toList (.bool false) (c :: t)
    else (readNumber (c :: t)).map fun (written, rest) => (.number written, rest)

/-- How deep brackets may nest. -/
def maxDepth : Nat := 127

/-- The value in a text, white space around it aside. -/
def parse? (t : Text) : Option Value :=
  match readValue maxDepth (skipGap t) with
  | some (v, rest) => if (skipGap rest).isEmpty then some v else none
  | none => none

end ConfigTree.Json
