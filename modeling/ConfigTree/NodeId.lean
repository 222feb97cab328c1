/-!
Identity of tree nodes. Two nodes can look alike and still be different nodes; which node a value is
never follows from its text, so every node carries a `NodeId`.
-/

namespace ConfigTree

/-- The identity of a node: the place that reading gave it, and the revision that built it. A node
rebuilt by an edit keeps its place and takes the revision of the edit. -/
structure NodeId where
  place : Nat
  revision : Nat
deriving DecidableEq, Repr, Inhabited

namespace NodeId

/-- The identity of nodes that have not been numbered yet. -/
def unnumbered : NodeId := ⟨0, 0⟩

/-- The identity of the node at the same place as rebuilt by `revision`. -/
def revised (id : NodeId) (revision : Nat) : NodeId := { id with revision }

@[simp] theorem place_revised (id : NodeId) (r : Nat) : (id.revised r).place = id.place := rfl

@[simp] theorem revision_revised (id : NodeId) (r : Nat) : (id.revised r).revision = r := rfl

theorem revised_ne {id : NodeId} {r : Nat} (h : id.revision ≠ r) : id.revised r ≠ id :=
  fun e => h (e ▸ rfl)

end NodeId

end ConfigTree
