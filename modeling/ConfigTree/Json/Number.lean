import ConfigTree.Text.Numeral

/-!
JSON numbers. A number is kept as it is written, but it has to fit into a double: its leading
digits, as many as 64 bits hold, are multiplied as a double by a power of ten.
-/

namespace ConfigTree.Json

/-- A number cut into its parts. -/
structure NumberParts where
  whole : Text
  fraction : Text
  exponent : Int

/-- The value of the leading digits that fit into 64 bits after `value`, and how many
digits are left. -/
def leadingDigits (value : Nat) : Text → Nat × Nat
  | [] => (value, 0)
  | c :: t =>
    let next := 10 * value + (c.toNat - '0'.toNat)
    if next < Text.wordLimit then leadingDigits next t else (value, t.length + 1)

/-- The natural number with 53 significant bits that is nearest to `n`, ties going to
the even one. -/
def nearestDouble (n : Nat) : Nat :=
  let unit := 1 <<< (n.log2 - 52)
  let q := n / unit
  let r := n % unit
  (if 2 * r < unit ∨ (2 * r = unit ∧ q % 2 = 0) then q else q + 1) * unit

/-- The least number that does not round to a double. -/
def doubleLimit : Nat := 1 <<< 1024 - 1 <<< 970

/-- Whether `digits` times the given power of ten is a double. -/
def fitsDouble (digits : Nat) (exponent : Int) : Bool :=
  digits == 0 || exponent < 0 ||
    (exponent ≤ 308 && nearestDouble digits * nearestDouble (Nat.pow 10 exponent.toNat) < doubleLimit)

/-- Whether a number is a double. -/
def NumberParts.isDouble (p : NumberParts) : Bool :=
  let (digits, more) := leadingDigits 0 p.whole
  let (digits, unread) := leadingDigits digits p.fraction
  fitsDouble digits (p.exponent + more + unread - p.fraction.length)

/-- The digits that a text starts with, if it starts with any, and the rest. -/
def digits1 (t : Text) : Option (Text × Text) :=
  match t.span Char.isDigit with
  | ([], _) => none
  | (ds, rest) => some (ds, rest)

/-- The digits before the point: a zero by itself, or digits that do not start with zero. -/
def wholePart (t : Text) : Option (Text × Text) := do
  let (ds, rest) ← digits1 t
  if 1 < ds.length ∧ ds.head? = some '0' then none else some (ds, rest)

/-- The digits after the point, if there is one. -/
def fractionPart : Text → Option (Text × Text)
  | '.' :: t => digits1 t
  | t => some ([], t)

/-- The power of ten, if there is one. -/
def exponentPart : Text → Option (Int × Text)
  | [] => some (0, [])
  | c :: t =>
    if c = 'e' ∨ c = 'E' then
      let (negative, t) := match t with
        | '-' :: t => (true, t)
        | '+' :: t => (false, t)
        | t => (false, t)
      do
        let (ds, rest) ← digits1 t
        let n ← Text.digits? 10 ds
        some (if negative then -(n : Int) else n, rest)
    else some (0, c :: t)

/-- The number that a text starts with and the rest. -/
def readNumber (t : Text) : Option (Text × Text) := do
  let unsigned := if t.head? = some '-' then t.drop 1 else t
  let (whole, rest) ← wholePart unsigned
  let (fraction, rest) ← fractionPart rest
  let (exponent, rest) ← exponentPart rest
  if (NumberParts.mk whole fraction exponent).isDouble then some (t.take (t.length - rest.length), rest)
  else none

end ConfigTree.Json
