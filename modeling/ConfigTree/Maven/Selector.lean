import ConfigTree.Maven.Version

/-!
Version selectors. An exact version, `5.x` and `*`, `~5.3.1` up to the next minor line, `^5.3.1`
up to the next major line, `5.0 - 5.3` with both ends, ranges such as `[5.0,6.0)`, and the
latest release, integration or patch. All but exact versions and the latest integration leave
out pre-releases.

The number of a next line has 64 bits as well. These go round after the greatest number, as they do
in a build that does not check its sums. A build that checks them stops there instead, and reads all
other selectors alike.
-/

namespace ConfigTree.Maven

/-- One end of a range. -/
structure Bound where
  version : Version
  inclusive : Bool
deriving DecidableEq, Repr

namespace Bound

/-- Whether `v` is not below the end `b` of a range. -/
def admitsFromBelow (b : Bound) (v : Version) : Bool :=
  match v.compare b.version with
  | .gt => true
  | .eq => b.inclusive
  | .lt => false

/-- Whether `v` is not above the end `b` of a range. -/
def admitsFromAbove (b : Bound) (v : Version) : Bool :=
  match v.compare b.version with
  | .lt => true
  | .eq => b.inclusive
  | .gt => false

end Bound

inductive Selector where
  | exact (version : Version)
  /-- The releases whose first parts are the given ones. -/
  | wildcard (parts : List Nat)
  | range (lower upper : Option Bound)
  | latestRelease
  | latestIntegration
  | latestPatch
deriving DecidableEq, Repr

namespace Selector

/-- The version that consists of the given parts alone. -/
def versionOfParts (parts : List Nat) : Version :=
  ⟨Text.joinWith '.' (parts.map Text.ofNat), parts, none⟩

/-- From `lower` on, up to but without the version with the parts `upper`. -/
def halfOpen (lower : Version) (upper : List Nat) : Selector :=
  range (some ⟨lower, true⟩) (some ⟨versionOfParts upper, false⟩)

/-- The first version of the next minor line, or of the next major line if there is a
major part only. -/
def nextMinorLine (v : Version) : List Nat :=
  if v.parts.length = 1 then [Text.wordSucc v.major] else [v.major, Text.wordSucc v.minor]

/-- The first version after `v` in which a part up to the first that is not zero is higher. -/
def nextCompatibilityLine (v : Version) : List Nat :=
  if 0 < v.major ∨ v.parts.length = 1 then [Text.wordSucc v.major]
  else if 0 < v.minor ∨ v.parts.length = 2 then [0, Text.wordSucc v.minor]
  else [0, 0, Text.wordSucc (v.part 2)]

/-- An end of a range in brackets: nothing at all, or a version. -/
def bound? (inclusive : Bool) (t : Text) : Option (Option Bound) :=
  if t.isBlank then some none else (Version.parse? t).map fun v => some ⟨v, inclusive⟩

/-- A range between brackets, of which square ones are inclusive. One version between square
brackets is that version alone. -/
def bracketed? (t : Text) : Option Selector :=
  match t, t.getLast? with
  | opening :: rest, some closing =>
    if closing = ']' ∨ closing = ')' then
      let inner := rest.dropLast
      match Text.splitOn ',' inner with
      | [_] => if opening = '[' ∧ closing = ']' then (Version.parse? inner).map exact else none
      | [low, high] => do
        let lower ← bound? (opening = '[') low
        let upper ← bound? (closing = ']') high
        some (range lower upper)
      | _ => none
    else none
  | _, _ => none

def isWildcard (segment : Text) : Bool := segment == ['x'] || segment == ['X'] || segment == ['*']

/-- Numbers with wildcards after them. -/
def wildcard? (segments : List Text) : Option Selector :=
  let (front, back) := segments.span (!isWildcard ·)
  if back.all isWildcard then (front.mapM versionPart?).map wildcard else none

/-- The selector in a text, white space around it aside. -/
def parse? (text : Text) : Option Selector :=
  let t := text.trim
  if t = [] then none
  else if t = "latest.release".toList then some latestRelease
  else if t = "latest.integration".toList then some latestIntegration
  else if t = "latest.patch".toList then some latestPatch
  else if t.head? = some '[' ∨ t.head? = some '(' then bracketed? t
  else match Text.cutAt " - ".toList t with
    | some (low, high) => do
      let lower ← Version.parse? low
      let upper ← Version.parse? high
      some (range (some ⟨lower, true⟩) (some ⟨upper, true⟩))
    | none =>
      match t with
      | '~' :: rest => (Version.parse? rest).map fun v => halfOpen v (nextMinorLine v)
      | '^' :: rest => (Version.parse? rest).map fun v => halfOpen v (nextCompatibilityLine v)
      | _ =>
        let segments := Text.splitOn '.' t
        if segments.any isWildcard then wildcard? segments else (Version.parse? t).map exact

/-- The selector in a text, or why there is none. -/
def parse (text : Text) : Except Problem Selector :=
  match parse? text with
  | some s => .ok s
  | none => .error (.invalidSelector text)

/-- Whether a selector accepts a version. `current` is the version in use, which the latest patch is
measured by. -/
def acceptsVersion (s : Selector) (current : Option Version) (v : Version) : Bool :=
  match s with
  | exact w => v.same w
  | wildcard parts => v.isRelease && parts.zipIdx.all fun (p, i) => v.part i == p
  | range lower upper =>
    v.isRelease && lower.all (Bound.admitsFromBelow · v) && upper.all (Bound.admitsFromAbove · v)
  | latestRelease => v.isRelease
  | latestIntegration => true
  | latestPatch =>
    match current with
    | none => false
    | some w => v.isRelease && v.major == w.major && v.minor == w.minor && v.compare w != .lt

/-- Whether a selector accepts the version in a text. Texts that are no versions are
not accepted. -/
def accepts (s : Selector) (current : Option Text) (version : Text) : Bool :=
  match Version.parse? version with
  | none => false
  | some v => s.acceptsVersion (current >>= Version.parse?) v

end Selector

end ConfigTree.Maven
