import ConfigTree.Maven.Problem
import ConfigTree.Text.Blank
import ConfigTree.Text.Numeral

/-!
Versions: numbers between dots and a qualifier, as in `5.3.7`, `4.3.6.RELEASE` or
`6.0.0-M1`. The order of versions takes missing numbers for zero and does not tell final
releases of one number apart.
-/

namespace ConfigTree.Maven

structure Version where
  raw : Text
  parts : List Nat
  qualifier : Option Text
deriving DecidableEq, Repr

/-- A part of a version: a number below two to the 64th. -/
def versionPart? (t : Text) : Option Nat := (Text.numeral? 10 t).filter (· < Text.wordLimit)

namespace Version

def isNumeric (c : Char) : Bool := c.isDigit || c == '.'

/-- The version in a text, white space around it aside. -/
def parse? (text : Text) : Option Version :=
  let raw := text.trim
  let (front, back) := Text.span isNumeric raw
  let numeric := Text.trimEndWhile (· == '.') front
  let qualifier := back.dropWhile fun c => c == '-' || c == '.'
  if numeric.isEmpty then none
  else do
    let parts ← (Text.splitOn '.' numeric).mapM versionPart?
    some ⟨raw, parts, if qualifier.isEmpty then none else some qualifier⟩

/-- The version in a text, or why there is none. -/
def parse (text : Text) : Except Problem Version :=
  match parse? text with
  | some v => .ok v
  | none => .error (.invalidVersion text)

/-- The part with index `i`, zero where there is none. -/
def part (v : Version) (i : Nat) : Nat := v.parts[i]?.getD 0

def major (v : Version) : Nat := v.part 0

def minor (v : Version) : Nat := v.part 1

/-- How far a version is towards its release, or beyond. -/
inductive Stage where
  | preRelease
  | release
  | servicePack
deriving DecidableEq, Repr

/-- The order of stages. -/
def Stage.rank : Stage → Nat
  | preRelease => 0
  | release => 1
  | servicePack => 2

/-- The stage that a qualifier tells, in any letter case. -/
def stageOf (qualifier : Text) : Stage :=
  let q := Text.asciiUpper qualifier
  if "SP".toList.isPrefixOf q then .servicePack
  else if q = "RELEASE".toList ∨ q = "FINAL".toList ∨ q = "GA".toList then .release
  else .preRelease

def stage (v : Version) : Stage := (v.qualifier.map stageOf).getD .release

/-- Whether a version is a final release or a service pack. -/
def isRelease (v : Version) : Bool := v.stage != .preRelease

/-- The order of lists of parts, where missing parts count as zero. -/
def compareParts : List Nat → List Nat → Ordering
  | as, [] => if as.all (· == 0) then .eq else .gt
  | as, b :: bs => (Ord.compare (as.headD 0) b).then (compareParts as.tail bs)

/-- The order of versions: by their parts, by stage, and unless both are plain releases by
qualifier, letter case aside. -/
def compare (v w : Version) : Ordering :=
  (compareParts v.parts w.parts).then <|
    (Ord.compare v.stage.rank w.stage.rank).then <|
      if v.stage = .release then .eq
      else Text.compare (Text.asciiUpper (v.qualifier.getD [])) (Text.asciiUpper (w.qualifier.getD []))

/-- Whether two versions are the same, however they are spelt. -/
def same (v w : Version) : Bool := v.compare w == .eq

/-- The versions in ascending order. Versions that compare equal keep their order. -/
def sort (vs : List Version) : List Version := vs.mergeSort fun v w => v.compare w != .gt

end Version

end ConfigTree.Maven
