import ConfigTree.Mark
import ConfigTree.NodeId
import Mathlib.Algebra.Order.BigOperators.Group.List
import Mathlib.Algebra.Order.Ring.Nat

/-!
# Parts that stay or grow

A search leaves each part of a file as it is or makes it longer: that is what tells a file in which
something was found, by its text, from one in which nothing was.
-/

namespace ConfigTree

theorem Mark.length_arrow_pos (mark : Mark) : 0 < mark.arrow.length := by
  obtain ⟨_ | description⟩ := mark <;> simp [Mark.arrow]

/-- `after` is `before`, or another node with a longer text. -/
def StaysOrGrows {α : Type} (id : α → NodeId) (text : α → Text) (before after : α) : Prop :=
  after = before ∨ (id after ≠ id before ∧ (text before).length < (text after).length)

variable {α : Type} {id : α → NodeId} {text : α → Text} {change : α → α} {l : List α}

/-- Parts beside each other stay all of them, or one of them is another one and all together
are longer. -/
theorem map_staysOrGrows (each : ∀ a ∈ l, StaysOrGrows id text a (change a)) :
    l.map change = l ∨ ((l.map change).map id ≠ l.map id ∧
      (l.map fun a => (text a).length).sum <
        ((l.map change).map fun a => (text a).length).sum) := by
  by_cases kept : ∀ a ∈ l, change a = a
  · exact .inl ((List.map_congr_left kept).trans (List.map_id' l))
  · push Not at kept
    obtain ⟨a, isPart, changed⟩ := kept
    obtain ⟨other, longer⟩ := (each a isPart).resolve_left changed
    right
    rw [List.map_map, List.map_map]
    refine ⟨fun same => other (List.map_inj_left.mp same a isPart), ?_⟩
    refine List.sum_lt_sum _ _ (fun b isPart => ?_) ⟨a, isPart, longer⟩
    rcases each b isPart with same | ⟨-, longer⟩
    · rw [Function.comp_apply, same]
    · exact Nat.le_of_lt longer

end ConfigTree
