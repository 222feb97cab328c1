import ConfigTree.Text.Basic

/-!
Reading natural numbers in a base of at most sixteen, and writing them in base ten.
-/

namespace ConfigTree.Text

/-- The least number that does not fit into 64 bits. -/
def wordLimit : Nat := 0x10000000000000000

/-- The number after `n` in 64 bits, which go round: zero comes after the greatest one. -/
def wordSucc (n : Nat) : Nat := (n + 1) % wordLimit

theorem wordSucc_of_lt {n : Nat} (fits : n + 1 < wordLimit) : wordSucc n = n + 1 :=
  Nat.mod_eq_of_lt fits

/-- What a digit stands for: letters of either case stand for ten and more. -/
def digitValue (c : Char) : Option Nat :=
  if '0' ≤ c ∧ c ≤ '9' then some (c.toNat - '0'.toNat)
  else if 'a' ≤ c ∧ c ≤ 'f' then some (c.toNat - 'a'.toNat + 10)
  else if 'A' ≤ c ∧ c ≤ 'F' then some (c.toNat - 'A'.toNat + 10)
  else none

/-- Goes on reading the digits of a number that begins with `value`. -/
def numeralFrom (base value : Nat) : Text → Option Nat
  | [] => some value
  | c :: cs =>
    match digitValue c with
    | some d => if d < base then numeralFrom base (value * base + d) cs else none
    | none => none

/-- The number that a text of at least one digit stands for. -/
def digits? (base : Nat) : Text → Option Nat
  | [] => none
  | c :: cs => numeralFrom base 0 (c :: cs)

/-- The number that a text of digits stands for, where a plus sign may come first. -/
def numeral? (base : Nat) : Text → Option Nat
  | '+' :: cs => digits? base cs
  | cs => digits? base cs

/-- The decimal digits of a number. -/
def ofNat (n : Nat) : Text := Nat.toDigits 10 n

end ConfigTree.Text
