import ConfigTree.Text.Numeral

/-!
JSON values and how they are written: on one line, or with an indented line for each member.
-/

namespace ConfigTree.Json

inductive Value where
  | null
  | bool (value : Bool)
  /-- A number as it is written. -/
  | number (written : Text)
  | string (text : Text)
  | array (items : List Value)
  /-- An object with its members in order. -/
  | object (members : List (Text × Value))
deriving Repr

namespace Value

def ofNat (n : Nat) : Value := .number (Text.ofNat n)

end Value

/-! ### Writing -/

/-- A character inside a string. Only quotes, backslashes and controls are escaped. -/
def escape (c : Char) : Text :=
  if c = '"' then ['\\', '"']
  else if c = '\\' then ['\\', '\\']
  else if c = '\n' then ['\\', 'n']
  else if c = '\r' then ['\\', 'r']
  else if c = '\t' then ['\\', 't']
  else if c = '\x08' then ['\\', 'b']
  else if c = '\x0c' then ['\\', 'f']
  else if c.toNat < 0x20 then "\\u00".toList ++ [Nat.digitChar (c.toNat / 16), Nat.digitChar (c.toNat % 16)]
  else [c]

def quoted (t : Text) : Text := '"' :: t.flatMap escape ++ ['"']

namespace Value

mutual

/-- The value without blanks. -/
def compact : Value → Text
  | null => "null".toList
  | bool b => if b then "true".toList else "false".toList
  | number written => written
  | string t => quoted t
  | array [] => ['[', ']']
  | array (v :: vs) => '[' :: v.compact ++ compactItems vs
  | object [] => ['\x7b', '\x7d']
  | object ((name, v) :: ms) => '\x7b' :: quoted name ++ ':' :: v.compact ++ compactMembers ms

/-- The items after the first, and the end of the array. -/
def compactItems : List Value → Text
  | [] => [']']
  | v :: vs => ',' :: v.compact ++ compactItems vs

/-- The members after the first, and the end of the object. -/
def compactMembers : List (Text × Value) → Text
  | [] => ['\x7d']
  | (name, v) :: ms => ',' :: quoted name ++ ':' :: v.compact ++ compactMembers ms

end

/-- A new line at the given depth. -/
def newLine (depth : Nat) : Text := '\n' :: List.replicate (2 * depth) ' '

mutual

/-- The value with its items or members on lines of their own, two blanks further in than itself.
`depth` is the depth of the value. -/
def pretty (depth : Nat) : Value → Text
  | null => "null".toList
  | bool b => if b then "true".toList else "false".toList
  | number written => written
  | string t => quoted t
  | array [] => ['[', ']']
  | array (v :: vs) => '[' :: newLine (depth + 1) ++ v.pretty (depth + 1) ++ prettyItems depth vs
  | object [] => ['\x7b', '\x7d']
  | object ((name, v) :: ms) =>
    '\x7b' :: newLine (depth + 1) ++ quoted name ++ [':', ' '] ++ v.pretty (depth + 1) ++
      prettyMembers depth ms

/-- The items after the first, and the end of the array. -/
def prettyItems (depth : Nat) : List Value → Text
  | [] => newLine depth ++ [']']
  | v :: vs => ',' :: newLine (depth + 1) ++ v.pretty (depth + 1) ++ prettyItems depth vs

/-- The members after the first, and the end of the object. -/
def prettyMembers (depth : Nat) : List (Text × Value) → Text
  | [] => newLine depth ++ ['\x7d']
  | (name, v) :: ms =>
    ',' :: newLine (depth + 1) ++ quoted name ++ [':', ' '] ++ v.pretty (depth + 1) ++
      prettyMembers depth ms

end

end Value

end ConfigTree.Json
