/-!
Edit scripts: what to keep, delete and insert to turn one list into another. A shortest script is
found by searching from both ends until the two searches meet on some diagonal, and then on either
side of the place where they met.
-/

namespace ConfigTree.Diff

inductive Action where
  | keep
  | delete
  | insert
deriving DecidableEq, Repr

/-- An action on `length` items. Each step has its place in both lists; deletion covers items of the
old list alone and insertion items of the new list alone. -/
structure Step where
  action : Action
  old : Nat
  new : Nat
  length : Nat
deriving DecidableEq, Repr

namespace Step

/-- Where the step ends in the old list. -/
def oldEnd (s : Step) : Nat := if s.action = .insert then s.old else s.old + s.length

/-- Where the step ends in the new list. -/
def newEnd (s : Step) : Nat := if s.action = .delete then s.new else s.new + s.length

end Step

variable {α : Type} [BEq α]

/-- The number of items that two lists have in common at the start. -/
def commonLength : List α → List α → Nat
  | a :: as, b :: bs => if a == b then commonLength as bs + 1 else 0
  | _, _ => 0

/-! ### Where two searches meet -/

/-- Where the paths with one more edit begin on each diagonal, from the highest diagonal down, given
where the paths before end: one right of a path, or one below it, whichever is further on. -/
def nextStarts : List Nat → List Nat
  | [] => [0]
  | x :: xs => (x + 1) :: between x xs
where
  between (above : Nat) : List Nat → List Nat
    | [] => [above]
    | x :: xs => (if x < above then above else x + 1) :: between x xs

/-- The column after all items that are equal from column `x` and row `y` on. -/
def afterEqual (old new : Array α) (x y : Nat) : Nat :=
  if h : x < old.size ∧ y < new.size then
    if old[x] == new[y] then afterEqual old new (x + 1) (y + 1) else x
  else x
termination_by old.size - x

/-- Where a path that begins at column `x` of the diagonal `k` ends: after all items
that are equal. -/
def slide (old new : Array α) (k : Int) (x : Nat) : Nat :=
  let y := (x : Int) - k
  if 0 ≤ y then afterEqual old new x y.toNat else x

/-- The diagonals that paths of `d` edits end on, from the highest down. -/
def diagonals (d : Nat) : List Int := (List.range (d + 1)).map fun i : Nat => (d : Int) - 2 * (i : Int)

/-- What the ends of paths of `d` edits have for the diagonal `k`. -/
def endOn (d : Int) (ends : Array Nat) (k : Int) : Nat := ends.getD ((d - k) / 2).toNat 0

/-- A path on a diagonal, with the columns where its last run of equal items begins and ends. -/
structure Path where
  diagonal : Int
  first : Nat
  last : Nat

/-- The paths of `d` edits that go on from the ends of those of one edit less. -/
def paths (old new : Array α) (d : Nat) (ends : List Nat) : List Path :=
  (List.zip (diagonals d) (nextStarts ends)).map fun (k, x) => ⟨k, x, slide old new k x⟩

/-- Two lists to search in, from the start and from the end. -/
structure Ground (α : Type) where
  old : Array α
  new : Array α
  oldReversed : Array α
  newReversed : Array α

def Ground.ofLists (old new : List α) : Ground α :=
  ⟨old.toArray, new.toArray, old.reverse.toArray, new.reverse.toArray⟩

/-- Where the paths from the start of both lists meet those from their ends, searching on from `d`
edits. `forward` and `backward` are the ends of the paths of one edit less. -/
def meet (g : Ground α) : Nat → Nat → List Nat → List Nat → Option (Nat × Nat)
  | 0, _, _, _ => none
  | steps + 1, d, forward, backward =>
    let n := g.old.size
    let m := g.new.size
    let delta : Int := (n : Int) - m
    let odd := delta % 2 != 0
    let ahead := paths g.old g.new d forward
    let met (reach : Nat) (ends : Array Nat) (p : Path) : Bool :=
      (p.diagonal - delta).natAbs ≤ reach && p.last + endOn reach ends (delta - p.diagonal) ≥ n
    match if odd ∧ 0 < d then ahead.find? (met (d - 1) backward.toArray) else none with
    | some p => some (p.first, ((p.first : Int) - p.diagonal).toNat)
    | none =>
      let forward := ahead.map Path.last
      let back := paths g.oldReversed g.newReversed d backward
      match if odd then none else back.find? (met d forward.toArray) with
      | some p => some (n - p.last, m - ((p.last : Int) - p.diagonal).toNat)
      | none => meet g steps (d + 1) forward (back.map Path.last)

/-- The place where a shortest script can be cut in two, if it has to change anything. -/
def middle (old new : List α) : Option (Nat × Nat) :=
  meet (.ofLists old new) ((old.length + new.length + 1) / 2 + 1) 0 [] []

/-! ### Scripts -/

/-- A step, unless it is on nothing. -/
def step (action : Action) (old new length : Nat) : List Step :=
  if length = 0 then [] else [⟨action, old, new, length⟩]

/-- A shortest script for the given parts of two lists, which begin at `oldStart` and `newStart`. -/
def scriptFrom : Nat → Nat → List α → Nat → List α → List Step
  | 0, oldStart, old, newStart, new =>
    step .delete oldStart newStart old.length ++ step .insert oldStart newStart new.length
  | steps + 1, oldStart, old, newStart, new =>
    let front := commonLength old new
    let old' := old.drop front
    let new' := new.drop front
    let back := commonLength old'.reverse new'.reverse
    let old' := old'.take (old'.length - back)
    let new' := new'.take (new'.length - back)
    let oldStart' := oldStart + front
    let newStart' := newStart + front
    let inner :=
      if new' matches [] then step .delete oldStart' newStart' old'.length
      else if old' matches [] then step .insert oldStart' newStart' new'.length
      else match middle old' new' with
        | some (x, y) =>
          scriptFrom steps oldStart' (old'.take x) newStart' (new'.take y) ++
            scriptFrom steps (oldStart' + x) (old'.drop x) (newStart' + y) (new'.drop y)
        | none =>
          step .delete oldStart' newStart' old'.length ++ step .insert oldStart' newStart' new'.length
    step .keep oldStart newStart front ++ inner ++
      step .keep (oldStart' + old'.length) (newStart' + new'.length) back

/-- A shortest script that turns `old` into `new`. -/
def script (old new : List α) : List Step := scriptFrom (old.length + new.length + 1) 0 old 0 new

end ConfigTree.Diff
