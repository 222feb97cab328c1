import ConfigTree.Diff.Script

/-!
Compacting edit scripts: insertions slide over equal items as far as they go, up and then down, and
edits of one kind that come to stand side by side become one.
-/

namespace ConfigTree.Diff

namespace Step

def isKeep (s : Step) : Bool := s.action == .keep

/-- The step moved up by `n` items. -/
def up (s : Step) (n : Nat) : Step := { s with old := s.old - n, new := s.new - n }

/-- The step moved down by `n` items. -/
def down (s : Step) (n : Nat) : Step := { s with old := s.old + n, new := s.new + n }

/-- The step with `n` more items after its own. -/
def longer (s : Step) (n : Nat) : Step := { s with length := s.length + n }

/-- The step without its last `n` items. -/
def shorter (s : Step) (n : Nat) : Step := { s with length := s.length - n }

end Step

variable {α : Type} [BEq α]

/-- The items from one index up to another. -/
def slice (items : Array α) (first last : Nat) : List α := (items.extract first last).toList

/-- A place in a script: the steps before it, the last one first, the step at it, and
those after it. -/
structure Place where
  before : List Step
  here : Step
  after : List Step

namespace Place

/-- How far an insertion can slide up over the items kept before it, which is its length at most.
Deletions do not slide. -/
def slideUp (old new : Array α) (here kept : Step) : Nat :=
  if here.action = .insert then
    let near := slice old (max kept.old (kept.oldEnd - here.length)) kept.oldEnd
    commonLength near.reverse (slice new here.new here.newEnd).reverse
  else 0

/-- How far an insertion can slide down over the items kept after it. -/
def slideDown (old new : Array α) (here kept : Step) : Nat :=
  if here.action = .insert then
    let near := slice old kept.old (min kept.oldEnd (kept.old + here.length))
    commonLength near (slice new here.new here.newEnd)
  else 0

/-- The steps after a step that slid up by `n` over `kept`. -/
def keptAfter (kept here : Step) (n : Nat) : List Step → List Step
  | next :: rest =>
    if next.isKeep then (next.up n).longer n :: rest
    else ⟨.keep, kept.oldEnd - n, here.newEnd - n, n⟩ :: next :: rest
  | [] => [⟨.keep, kept.oldEnd - n, here.newEnd - n, n⟩]

/-- The steps before a step that slid down by `n` over `kept`. -/
def keptBefore (kept here : Step) (n : Nat) : List Step → List Step
  | previous :: rest =>
    if previous.isKeep then previous.longer n :: rest
    else ⟨.keep, kept.old, here.new, n⟩ :: previous :: rest
  | [] => [⟨.keep, kept.old, here.new, n⟩]

/-- The place with its step as far up as it goes. -/
def moveUp (old new : Array α) : Nat → Place → Place
  | 0, p => p
  | steps + 1, p =>
    match p.before with
    | [] => p
    | previous :: before =>
      if previous.isKeep then
        let n := slideUp old new p.here previous
        if 0 < n then
          let previous' := previous.shorter n
          let before := if previous'.length = 0 then before else previous' :: before
          moveUp old new steps ⟨before, p.here.up n, keptAfter previous p.here n p.after⟩
        else p
      else if previous.action = p.here.action then
        moveUp old new steps ⟨before, previous.longer p.here.length, p.after⟩
      else moveUp old new steps ⟨before, p.here, previous :: p.after⟩

/-- The place with its step as far down as it goes. -/
def moveDown (old new : Array α) : Nat → Place → Place
  | 0, p => p
  | steps + 1, p =>
    match p.after with
    | [] => p
    | next :: after =>
      if next.isKeep then
        let n := slideDown old new p.here next
        if 0 < n then
          let next' := (next.down n).shorter n
          let after := if next'.length = 0 then after else next' :: after
          moveDown old new steps ⟨keptBefore next p.here n p.before, p.here.down n, after⟩
        else p
      else if next.action = p.here.action then
        moveDown old new steps ⟨p.before, p.here.longer next.length, after⟩
      else moveDown old new steps ⟨next :: p.before, p.here, after⟩

end Place

/-- Moves all steps with one action, from the first of `after` on. -/
def moveAll (old new : Array α) (action : Action) : Nat → List Step → List Step → List Step
  | 0, before, after => before.reverse ++ after
  | _, before, [] => before.reverse
  | steps + 1, before, s :: after =>
    if s.action = action then
      let p := (Place.mk before s after).moveUp old new steps
      let p := p.moveDown old new steps
      moveAll old new action steps (p.here :: p.before) p.after
    else moveAll old new action steps (s :: before) after

/-- Enough steps to compact a script between lists of these lengths. -/
def compactionBudget (old new : List α) : Nat :=
  let size := old.length + new.length + 2
  size * size

/-- The script with all deletions and then all insertions moved. -/
def compact (old new : List α) (script : List Step) : List Step :=
  let budget := compactionBudget old new
  let move := moveAll old.toArray new.toArray
  move .insert budget [] (move .delete budget [] script)

end ConfigTree.Diff
