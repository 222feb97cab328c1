import ConfigTree.Proofs.Yaml.Rebuilding
import ConfigTree.Yaml.View

/-!
# Coherent views

A write through a view rewrites its scalar in the tree of the root view if every view on the way up
has the node below it as a child, and leaves the tree of the root view alone otherwise. What makes
this work is that an identity never names two nodes: a node that was rebuilt belongs to a new
revision, so that a link between views that is broken stays broken. Going on to other views and
writing keep this.
-/

namespace ConfigTree.Yaml

/-- The mapping that a node is or has as its body. -/
def Node.mapping? : Node → Option Mapping
  | .mapping m => some m
  | .document d => d.body.asMapping
  | _ => none

theorem Node.mapping?_eq_some {n : Node} {m : Mapping} (h : n.mapping? = some m) :
    n = .mapping m ∨ ∃ d, n = .document d ∧ d.body = .mapping m := by
  cases n with
  | mapping m' => exact .inl (congrArg Node.mapping (Option.some.inj h))
  | document d =>
    right
    refine ⟨d, rfl, ?_⟩
    rw [Node.mapping?] at h
    cases body : d.body with
    | mapping m' =>
      rw [body] at h
      exact congrArg Value.mapping (Option.some.inj h)
    | scalar | sequence =>
      rw [body] at h
      contradiction
  | entry | sequence | item | scalar => contradiction

theorem Node.mem_slots_of_body {d : Document} {m : Mapping} (body : d.body = .mapping m) :
    (.held .body, .mapping m) ∈ (Node.document d).slots := by
  rw [Node.slots, body]
  exact List.mem_cons_self

theorem Node.mem_slots_of_entry {m : Mapping} {e : Entry} (isEntry : e ∈ m.entries) :
    (Slot.entry, Node.entry e) ∈ (Node.mapping m).slots := List.mem_map_of_mem isEntry

theorem Node.mem_slots_of_value (e : Entry) :
    (.held .value, e.value.toNode) ∈ (Node.entry e).slots :=
  List.mem_cons_of_mem _ List.mem_cons_self

theorem Node.mem_nodes_of_mapping {n : Node} {m : Mapping} (h : n.mapping? = some m) :
    .mapping m ∈ n.nodes := by
  rcases Node.mapping?_eq_some h with rfl | ⟨d, rfl, body⟩
  · exact Node.mem_nodes _
  · exact Node.mem_nodes_of_child (Node.mem_children_of_slots (Node.mem_slots_of_body body))

namespace Views

/-- The view at the top of those that a view was reached through. -/
def root (vs : Views) (i : Nat) : Nat := (i :: vs.ancestors i).getLast (List.cons_ne_nil _ _)

/-- Whether the node of one view is a child of the node of another. -/
def LinkLive (vs : Views) (child parent : Nat) : Prop :=
  ∃ c p, vs.node? child = some c ∧ vs.node? parent = some p ∧ ∃ k ∈ p.children, k.same c = true

/-- Whether this holds of every view and the next on the way up to the root. -/
def ChainLive (vs : Views) (i : Nat) : Prop := (i :: vs.ancestors i).IsChain vs.LinkLive

instance (vs : Views) (child parent : Nat) : Decidable (vs.LinkLive child parent) :=
  decidable_of_iff (((vs.node? child).any fun c =>
      (vs.node? parent).any fun p => p.children.any (·.same c)) = true) <| by
    simp only [LinkLive, Option.any_eq_true, List.any_eq_true, exists_and_left]

instance (vs : Views) (i : Nat) : Decidable (vs.ChainLive i) :=
  inferInstanceAs (Decidable ((i :: vs.ancestors i).IsChain vs.LinkLive))

variable {vs : Views} {i j : Nat} {n : Node}

theorem node?_eq_some :
    vs.node? i = some n ↔ ∃ view, vs.views[i]? = some view ∧ view.node = some n :=
  Option.bind_eq_some_iff

@[simp] theorem ancestors_moveTo (vs : Views) (i j : Nat) (n : Node) :
    (vs.moveTo i n).ancestors j = vs.ancestors j := by
  rw [ancestors, moveTo, ancestors, List.getElem?_modify]
  by_cases same : i = j
  · cases vs.views[j]? <;> simp [same]
  · simp [same]

theorem node?_moveTo_self (h : (vs.node? i).isSome) : (vs.moveTo i n).node? i = some n := by
  obtain ⟨m, found⟩ := Option.isSome_iff_exists.mp h
  obtain ⟨view, found, -⟩ := node?_eq_some.mp found
  simp [node?, moveTo, found]

theorem node?_moveTo_ne (h : j ≠ i) : (vs.moveTo i n).node? j = vs.node? j := by
  simp [node?, moveTo, Ne.symm h]

/-- A moved view is on the node it was moved to, and no other view moves. -/
theorem node?_moveTo (onNode : (vs.node? i).isSome) (j : Nat) :
    (vs.moveTo i n).node? j = vs.node? j ∨ j = i ∧ (vs.moveTo i n).node? j = some n := by
  by_cases isMoved : j = i
  · subst isMoved
    exact .inr ⟨rfl, node?_moveTo_self onNode⟩
  · exact .inl (node?_moveTo_ne isMoved)

/-- A view may be moved to the node it is on. -/
theorem moveTo_self (h : vs.node? i = some n) : vs.moveTo i n = vs := by
  obtain ⟨view, found, onNode⟩ := node?_eq_some.mp h
  have same : vs.views.modify i (fun view => { view with node := some n }) = vs.views := by
    apply List.ext_getElem?
    intro j
    rw [List.getElem?_modify]
    by_cases same : i = j
    · subst same
      simp [found, ← onNode]
    · cases vs.views[j]? <;> simp [same]
  rw [moveTo, same]

@[simp] theorem ancestors_update (vs : Views) (i j : Nat) (as : List Nat) (after : Node) :
    (vs.update i as after).ancestors j = vs.ancestors j := by
  induction as generalizing vs i after with
  | nil => exact ancestors_moveTo vs i j after
  | cons p ps ih =>
    rw [update]
    split
    · rw [ih, ancestors_moveTo]
    · exact ancestors_moveTo vs i j after

theorem update_cons {p : Nat} {ps : List Nat} {before after parent : Node}
    (found : vs.node? i = some before) (above : vs.node? p = some parent) :
    vs.update i (p :: ps) after =
      (vs.moveTo i after).update p ps (parent.substitute vs.revision before after) := by
  rw [update, found, above]

/-- Moving a view to the node it is on changes nothing further up. -/
theorem update_self {as : List Nat} (found : vs.node? i = some n)
    (on : ∀ j ∈ as, (vs.node? j).isSome) :
    vs.update i as n = vs := by
  induction as generalizing i n with
  | nil => exact moveTo_self found
  | cons p ps ih =>
    obtain ⟨parent, above⟩ := Option.isSome_iff_exists.mp (on p List.mem_cons_self)
    rw [update_cons found above, moveTo_self found, Node.substitute_self]
    exact ih above fun j inside => on j (List.mem_cons_of_mem _ inside)

/-! ## Coherent views -/

/-- The nodes that can be reached from a stream and from the views. -/
def Knows (s : Stream) (vs : Views) (n : Node) : Prop :=
  n ∈ s.nodes ∨ ∃ i m, vs.node? i = some m ∧ n ∈ m.nodes

/-- What holds of the views of a session. -/
structure Coherent (s : Stream) (vs : Views) : Prop where
  /-- A view is reached through an earlier one that is on a node. -/
  chains : ∀ i, vs.ancestors i = [] ∨
    ∃ p, p < i ∧ (vs.node? p).isSome ∧ vs.ancestors i = p :: vs.ancestors p
  /-- The nodes of a tree are at different places. -/
  places : ∀ n, vs.Knows s n → (n.nodes.map (·.id.place)).Nodup
  /-- All nodes are older than the next write. -/
  older : ∀ n, vs.Knows s n → n.id.revision < vs.revision
  /-- An identity never names two nodes. -/
  unique : ∀ m n, vs.Knows s m → vs.Knows s n → m.id = n.id → m = n

namespace Coherent

variable {s : Stream}

/-- The views that a view was reached through are earlier ones, and on nodes. -/
theorem of_mem_ancestors (h : vs.Coherent s) (i : Nat) :
    (i :: vs.ancestors i).Nodup ∧ ∀ j ∈ vs.ancestors i, j < i ∧ (vs.node? j).isSome := by
  induction i using Nat.strongRecOn with
  | ind i ih =>
    rcases h.chains i with none | ⟨p, earlier, onNode, chain⟩
    · rw [none]
      exact ⟨List.nodup_singleton i, fun j inside => absurd inside List.not_mem_nil⟩
    · obtain ⟨nodup, above⟩ := ih p earlier
      have below : ∀ j ∈ p :: vs.ancestors p, j < i ∧ (vs.node? j).isSome := by
        intro j inside
        rcases List.mem_cons.mp inside with rfl | inside
        · exact ⟨earlier, onNode⟩
        · exact ⟨Nat.lt_trans (above j inside).1 earlier, (above j inside).2⟩
      rw [chain]
      refine ⟨List.nodup_cons.mpr ⟨fun inside => ?_, nodup⟩, below⟩
      exact absurd (below i inside).1 (Nat.lt_irrefl i)

/-- The next view on the way up is an earlier one, on a node and below the others. -/
theorem of_ancestors_cons (h : vs.Coherent s) {p : Nat} {ps : List Nat}
    (chain : vs.ancestors i = p :: ps) : p < i ∧ (vs.node? p).isSome ∧ vs.ancestors p = ps := by
  rcases h.chains i with none | ⟨p', earlier, onNode, chain'⟩
  · rw [none] at chain
    contradiction
  · obtain ⟨rfl, rest⟩ := List.cons.inj (chain'.symm.trans chain)
    exact ⟨earlier, onNode, rest⟩

theorem knows_of_node (_ : vs.Coherent s) (found : vs.node? i = some n) : vs.Knows s n :=
  .inr ⟨i, n, found, n.mem_nodes⟩

end Coherent

theorem Knows.below {s : Stream} {m : Node} (h : vs.Knows s n) (inside : m ∈ n.nodes) :
    vs.Knows s m := by
  rcases h with isNode | ⟨i, k, found, isNode⟩
  · exact .inl (Stream.mem_nodes isNode inside)
  · exact .inr ⟨i, k, found, Node.nodes_subset isNode inside⟩

/-- A live link: the node below is a child by more than its identity. -/
theorem Coherent.child_of_link {s : Stream} (h : vs.Coherent s) {p : Nat} {before parent : Node}
    (found : vs.node? i = some before) (above : vs.node? p = some parent) (live : vs.LinkLive i p) :
    ∃ k : Nat, parent.children[k]? = some before := by
  obtain ⟨c, p', found', above', child, isChild, same⟩ := live
  obtain rfl := Option.some.inj (found.symm.trans found')
  obtain rfl := Option.some.inj (above.symm.trans above')
  have known := (h.knows_of_node above).below (Node.mem_nodes_of_child isChild)
  obtain rfl := h.unique child before known (h.knows_of_node found) (beq_iff_eq.mp same)
  exact List.mem_iff_getElem?.mp isChild

theorem Coherent.nodup_children {s : Stream} (h : vs.Coherent s) (known : vs.Knows s n) :
    (n.children.map Node.id).Nodup :=
  (Node.nodup_children (h.places n known)).1

/-- What became of the views `ws` by an update at the view `i` below the views `as`. The chain of
these is taken as it was in `vs`. -/
structure Outcome (vs ws ws' : Views) (i : Nat) (as : List Nat) (top new : Node) : Prop where
  /-- Only views on the way up have moved, and to nodes of the new tree. -/
  nodes : ∀ j, ws'.node? j = ws.node? j ∨ j ∈ i :: as ∧ ∃ m ∈ new.nodes, ws'.node? j = some m
  /-- Through a live chain the root has come from the old tree to the new one. -/
  live : (i :: as).IsChain vs.LinkLive →
    vs.node? ((i :: as).getLast (List.cons_ne_nil _ _)) = some top ∧
      ws'.node? ((i :: as).getLast (List.cons_ne_nil _ _)) = some new
  /-- Through a chain that is broken the root has not moved. -/
  stale : ¬ (i :: as).IsChain vs.LinkLive →
    ws'.node? ((i :: as).getLast (List.cons_ne_nil _ _)) =
      vs.node? ((i :: as).getLast (List.cons_ne_nil _ _))

section Outcome

variable {ws ws' : Views} {p : Nat} {ps : List Nat} {before after parent top new : Node}

/-- A view with no other above it moves. -/
theorem outcome_nil (found : vs.node? i = some before) (onNode : (ws.node? i).isSome) :
    Outcome vs ws (ws.moveTo i after) i [] before after where
  nodes j := (node?_moveTo onNode j).imp_right fun ⟨isMoved, moved⟩ =>
    ⟨List.mem_singleton.mpr isMoved, after, after.mem_nodes, moved⟩
  live _ := ⟨found, node?_moveTo_self onNode⟩
  stale broken := absurd (List.IsChain.singleton i) broken

/-- Above a live link the update goes on from the view above. -/
theorem Outcome.cons (above : Outcome vs (ws.moveTo i after) ws' p ps top new)
    (onNode : (ws.node? i).isSome) (link : vs.LinkLive i p) (inside : after ∈ new.nodes) :
    Outcome vs ws ws' i (p :: ps) top new := by
  refine ⟨fun j => ?_, fun chain => ?_, fun broken => ?_⟩
  · rcases above.nodes j with unmoved | ⟨onChain, m, isNode, place⟩
    · rw [unmoved]
      exact (node?_moveTo onNode j).imp_right fun ⟨isMoved, moved⟩ =>
        ⟨List.mem_cons.mpr (.inl isMoved), after, inside, moved⟩
    · exact .inr ⟨List.mem_cons_of_mem _ onChain, m, isNode, place⟩
  · exact above.live (List.isChain_cons_cons.mp chain).2
  · exact above.stale fun chain => broken (List.isChain_cons_cons.mpr ⟨link, chain⟩)

/-- Above a broken link nothing moves. -/
theorem outcome_of_broken (onNode : (ws.node? i).isSome) (broken : ¬ vs.LinkLive i p)
    (same : ∀ j ∈ p :: ps, (ws.moveTo i after).node? j = vs.node? j) :
    Outcome vs ws (ws.moveTo i after) i (p :: ps) before after where
  nodes j := (node?_moveTo onNode j).imp_right fun ⟨isMoved, moved⟩ =>
    ⟨List.mem_cons.mpr (.inl isMoved), after, after.mem_nodes, moved⟩
  live chain := absurd (List.isChain_cons_cons.mp chain).1 broken
  stale _ := same _ (List.getLast_mem _)

/-- With a parent that does not take the node, only the view itself is moved. -/
theorem update_cons_of_kept (found : ws.node? i = some before)
    (same : ∀ j ∈ p :: ps, (ws.moveTo i after).node? j = ws.node? j)
    (above : ws.node? p = some parent) (on : ∀ j ∈ ps, (ws.node? j).isSome)
    (kept : parent.substitute ws.revision before after = parent) :
    ws.update i (p :: ps) after = ws.moveTo i after := by
  rw [update_cons found above, kept]
  apply update_self ((same p List.mem_cons_self).trans above)
  intro j inside
  rw [same j (List.mem_cons_of_mem _ inside)]
  exact on j inside

end Outcome

/-- The trees up to the highest view with a live chain are rewritten, and all that is new is in the
tree of that view. -/
theorem Coherent.update_outcome {s : Stream} (h : vs.Coherent s) {t : Scalar} {text : Text}
    {path : List Nat} {as : List Nat} {before after : Node} {ws : Views}
    (same : ∀ j ∈ i :: as, ws.node? j = vs.node? j) (revision : ws.revision = vs.revision)
    (nodup : (i :: as).Nodup) (on : ∀ j ∈ as, (vs.node? j).isSome)
    (found : vs.node? i = some before) (edit : RewrittenAt vs.revision t text path before after) :
    ∃ top new path', vs.Knows s top ∧ RewrittenAt vs.revision t text path' top new ∧
      after ∈ new.nodes ∧ Outcome vs ws (ws.update i as after) i as top new := by
  have found' : ws.node? i = some before := (same i List.mem_cons_self).trans found
  have onNode : (ws.node? i).isSome := Option.isSome_of_eq_some found'
  have knownBefore := h.knows_of_node found
  induction as generalizing i before after path ws with
  | nil =>
    exact ⟨before, after, path, knownBefore, edit, after.mem_nodes, outcome_nil found onNode⟩
  | cons p ps ih =>
    obtain ⟨parent, above⟩ := Option.isSome_iff_exists.mp (on p List.mem_cons_self)
    obtain ⟨apart, nodup⟩ := List.nodup_cons.mp nodup
    have on' : ∀ j ∈ ps, (vs.node? j).isSome := fun j inside => on j (List.mem_cons_of_mem _ inside)
    have above' : ws.node? p = some parent :=
      (same p (List.mem_cons_of_mem _ List.mem_cons_self)).trans above
    have unmoved : ∀ j ∈ p :: ps, (ws.moveTo i after).node? j = ws.node? j := fun j inside =>
      node?_moveTo_ne fun equal => apart (equal ▸ inside)
    have same' : ∀ j ∈ p :: ps, (ws.moveTo i after).node? j = vs.node? j := fun j inside =>
      (unmoved j inside).trans (same j (List.mem_cons_of_mem _ inside))
    have older : before.id.revision ≠ vs.revision := Nat.ne_of_lt (h.older _ knownBefore)
    by_cases live : vs.LinkLive i p
    · obtain ⟨k, isChild⟩ := h.child_of_link found above live
      have knownParent := h.knows_of_node above
      have children := h.nodup_children knownParent
      have afterIn : after ∈ (parent.substitute vs.revision before after).nodes := by
        apply Node.mem_nodes_of_child
        rw [(edit.substitute_child children isChild older).children]
        exact List.mem_set (List.getElem?_eq_some_iff.mp isChild).1 _
      have aboveMoved := (same' p List.mem_cons_self).trans above
      obtain ⟨top, new, path', known, edit', inside, outcome⟩ :=
        ih same' revision nodup on' above (edit.substitute children isChild older) aboveMoved
          (Option.isSome_of_eq_some aboveMoved) knownParent
      rw [update_cons found' above', revision]
      have afterInside := Node.nodes_subset inside afterIn
      exact ⟨top, new, path', known, edit', afterInside, outcome.cons onNode live afterInside⟩
    · have kept : parent.substitute ws.revision before after = parent := by
        apply Node.substitute_of_ne
        intro child isChild equal
        exact live ⟨before, parent, found, above, child, isChild, beq_iff_eq.mpr equal⟩
      have onWs : ∀ j ∈ ps, (ws.node? j).isSome := fun j inside => by
        rw [same j (List.mem_cons_of_mem _ (List.mem_cons_of_mem _ inside))]
        exact on' j inside
      rw [update_cons_of_kept found' unmoved above' onWs kept]
      exact ⟨before, after, path, knownBefore, edit, after.mem_nodes,
        outcome_of_broken onNode live same'⟩

section Add

variable {view : View}

theorem lt_of_node (onNode : (vs.node? j).isSome) : j < vs.views.length := by
  obtain ⟨n, found⟩ := Option.isSome_iff_exists.mp onNode
  obtain ⟨view, place, -⟩ := node?_eq_some.mp found
  exact (List.getElem?_eq_some_iff.mp place).1

theorem node?_add (onNode : (vs.node? j).isSome) : (vs.add view).2.node? j = vs.node? j := by
  rw [node?, add, List.getElem?_append_left (lt_of_node onNode), node?]

theorem node?_add_of_eq_some (found : vs.node? j = some n) : (vs.add view).2.node? j = some n :=
  (node?_add (Option.isSome_of_eq_some found)).trans found

theorem node?_add_self (vs : Views) (view : View) :
    (vs.add view).2.node? (vs.add view).1 = view.node := by
  rw [node?, add, List.getElem?_concat_length]
  rfl

theorem ancestors_add (onNode : (vs.node? j).isSome) :
    (vs.add view).2.ancestors j = vs.ancestors j := by
  rw [ancestors, add, List.getElem?_append_left (lt_of_node onNode), ancestors]

theorem ancestors_add_self (vs : Views) (view : View) :
    (vs.add view).2.ancestors (vs.add view).1 = view.ancestors := by
  rw [ancestors, add, List.getElem?_concat_length]
  rfl

/-- A view is an old one, the one that was added, or none. -/
theorem views_add (vs : Views) (view : View) (j : Nat) :
    (vs.add view).2.views[j]? = vs.views[j]? ∨
      j = (vs.add view).1 ∧ (vs.add view).2.views[j]? = some view := by
  rcases Nat.lt_trichotomy j vs.views.length with inside | rfl | beyond
  · left
    rw [add, List.getElem?_append_left inside]
  · right
    exact ⟨rfl, List.getElem?_concat_length⟩
  · left
    rw [add, List.getElem?_eq_none (Nat.le_of_lt beyond), List.getElem?_eq_none]
    rw [List.length_append, List.length_singleton]
    exact beyond

end Add

theorem mapping?_eq (vs : Views) (i : Nat) : vs.mapping? i = (vs.node? i).bind Node.mapping? := by
  rw [mapping?]
  cases vs.node? i with
  | none => rfl
  | some n => cases n <;> rfl

theorem mappingView_of_none (h : vs.mapping? i = none) : vs.mappingView i = (none, vs) := by
  rw [mapping?_eq] at h
  rw [mappingView]
  cases found : vs.node? i with
  | none => rfl
  | some n =>
    rw [found, Option.bind_some] at h
    cases n with
    | mapping m => contradiction
    | document d =>
      cases body : d.body with
      | mapping m => simp [Node.mapping?, body, Value.asMapping] at h
      | scalar | sequence => simp [body]
    | entry | sequence | item | scalar => rfl

/-- The view is on the mapping, or on a document with the mapping as its body. -/
theorem mappingView_of_some {m : Mapping} (h : vs.mapping? i = some m) :
    vs.node? i = some (.mapping m) ∧ vs.mappingView i = (some (i, m), vs) ∨
      ∃ n, vs.node? i = some n ∧ (.held .body, .mapping m) ∈ n.slots ∧ vs.mappingView i =
        (some ((vs.addChild i (.mapping m)).1, m), (vs.addChild i (.mapping m)).2) := by
  rw [mapping?_eq] at h
  obtain ⟨n, found, isMapping⟩ := Option.bind_eq_some_iff.mp h
  rw [mappingView, found]
  rcases Node.mapping?_eq_some isMapping with rfl | ⟨d, rfl, body⟩
  · exact .inl ⟨rfl, rfl⟩
  · refine .inr ⟨_, rfl, Node.mem_slots_of_body body, ?_⟩
    simp only [body]

/-! ## Going on to other views and writing -/

section Steps

variable {s : Stream}

/-- One more view on a known node. -/
theorem Coherent.add (h : vs.Coherent s) {view : View}
    (known : ∀ m, view.node = some m → vs.Knows s m)
    (chain : view.ancestors = [] ∨
      ∃ p, (vs.node? p).isSome ∧ view.ancestors = p :: vs.ancestors p) :
    (vs.add view).2.Coherent s := by
  have knows : ∀ m, (vs.add view).2.Knows s m → vs.Knows s m := by
    rintro m (isNode | ⟨j, k, found, below⟩)
    · exact .inl isNode
    · rw [node?] at found
      rcases views_add vs view j with old | ⟨-, added⟩
      · rw [old] at found
        exact .inr ⟨j, k, found, below⟩
      · rw [added] at found
        exact (known k found).below below
  have link : ∀ {j p : Nat} {rest}, p < j → (vs.node? p).isSome → rest = p :: vs.ancestors p →
      ∃ p, p < j ∧ ((vs.add view).2.node? p).isSome ∧ rest = p :: (vs.add view).2.ancestors p := by
    intro j p rest earlier onNode chain
    refine ⟨p, earlier, ?_, ?_⟩
    · rwa [node?_add onNode]
    · rwa [ancestors_add onNode]
  refine ⟨?_, fun m isKnown => h.places m (knows m isKnown), fun m isKnown =>
    h.older m (knows m isKnown),
    fun m n isKnown isKnown' => h.unique m n (knows m isKnown) (knows n isKnown')⟩
  intro j
  rw [ancestors]
  rcases views_add vs view j with old | ⟨rfl, added⟩
  · rw [old]
    exact (h.chains j).imp_right fun ⟨p, earlier, onNode, chain⟩ => link earlier onNode chain
  · rw [added]
    exact chain.imp_right fun ⟨p, onNode, chain⟩ => link (lt_of_node onNode) onNode chain

/-- Later revisions may be left out. -/
theorem Coherent.raise (h : vs.Coherent s) {revision : Nat} (later : vs.revision ≤ revision) :
    Coherent s { vs with revision } :=
  ⟨h.chains, h.places, fun m known => Nat.lt_of_lt_of_le (h.older m known) later, h.unique⟩

theorem Coherent.addRoot (h : vs.Coherent s) (known : vs.Knows s n) :
    (vs.addRoot n).2.Coherent s := by
  refine (h.raise (Nat.le_max_left _ _)).add ?_ (.inl rfl)
  intro m same
  obtain rfl := Option.some.inj same
  exact known

theorem Coherent.knows_of_mapping (h : vs.Coherent s) {m : Mapping}
    (found : vs.mapping? i = some m) : vs.Knows s (.mapping m) := by
  rw [mapping?_eq] at found
  obtain ⟨n, onNode, isMapping⟩ := Option.bind_eq_some_iff.mp found
  exact (h.knows_of_node onNode).below (Node.mem_nodes_of_mapping isMapping)

/-- A view on a child, reached through the view on its parent. -/
theorem Coherent.addChild (h : vs.Coherent s) {c : Node} (found : vs.node? i = some n)
    (isChild : c ∈ n.children) : (vs.addChild i c).2.Coherent s := by
  refine h.add ?_ (.inr ⟨i, Option.isSome_of_eq_some found, rfl⟩)
  intro m same
  obtain rfl := Option.some.inj same
  exact (h.knows_of_node found).below (Node.mem_nodes_of_child isChild)

theorem node?_addChild_self (vs : Views) (i : Nat) (n : Node) :
    (vs.addChild i n).2.node? (vs.addChild i n).1 = some n := node?_add_self vs _

/-- The later views are the earlier ones and more, each of these on a child of the node that the
view is on through which it was reached. A key is no such child. -/
inductive Grows (vs : Views) : Views → Prop where
  | refl : Grows vs vs
  | child {vs' : Views} {i : Nat} {n : Node} {place : Slot × Node} (before : Grows vs vs')
      (found : vs'.node? i = some n) (isSlot : place ∈ n.slots) (notKey : place.1 ≠ .key) :
      Grows vs (vs'.addChild i place.2).2

theorem Grows.trans {vs' vs'' : Views} (h : vs.Grows vs') (h' : vs'.Grows vs'') :
    vs.Grows vs'' := by
  induction h' with
  | refl => exact h
  | child before found isSlot notKey ih => exact .child ih found isSlot notKey

theorem Grows.within {vs' : Views} (h : vs.Grows vs') : vs.views <+: vs'.views := by
  induction h with
  | refl => exact List.prefix_refl _
  | child before found isSlot notKey ih => exact ih.trans (List.prefix_append _ _)

theorem Grows.node? {vs' : Views} (h : vs.Grows vs') (found : vs.node? i = some n) :
    vs'.node? i = some n := by
  induction h with
  | refl => exact found
  | child before above isSlot notKey ih => exact node?_add_of_eq_some ih

theorem Grows.coherent {vs' : Views} (h : vs.Grows vs') (coherent : vs.Coherent s) :
    vs'.Coherent s := by
  induction h with
  | refl => exact coherent
  | child before found isSlot notKey ih =>
    exact ih.addChild found (Node.mem_children_of_slots isSlot)

/-- The mapping that a view is on has a view of its own. -/
theorem exists_mappingView {m : Mapping} (h : vs.mapping? i = some m) :
    ∃ j vs', vs.mappingView i = (some (j, m), vs') ∧ vs.Grows vs' ∧
      vs'.node? j = some (.mapping m) := by
  rcases mappingView_of_some h with ⟨found, reached⟩ | ⟨n, found, isSlot, reached⟩
  · exact ⟨i, vs, reached, .refl, found⟩
  · exact ⟨_, _, reached, .child .refl found isSlot (by simp), node?_addChild_self vs i _⟩

theorem grows_addEntryValue {m : Mapping} {e : Entry} (found : vs.node? i = some (.mapping m))
    (isEntry : e ∈ m.entries) : vs.Grows (vs.addEntryValue i e).2 := by
  have onEntry : vs.Grows (vs.addChild i (.entry e)).2 :=
    .child .refl found (Node.mem_slots_of_entry isEntry) (by simp)
  exact .child onEntry (node?_addChild_self vs i _) (Node.mem_slots_of_value e) (by simp)

theorem grows_get (vs : Views) (i : Nat) (key : Text) : vs.Grows (vs.get i key).2 := by
  rw [Views.get]
  cases isMapping : vs.mapping? i with
  | none =>
    rw [mappingView_of_none isMapping]
    exact .refl
  | some m =>
    obtain ⟨j, vs', reached, grows, onMapping⟩ := exists_mappingView isMapping
    rw [reached]
    dsimp only
    cases found : m.find? key with
    | none => exact grows
    | some e =>
      exact grows.trans (grows_addEntryValue onMapping (List.mem_of_find?_eq_some found))

theorem grows_getKeys (vs : Views) (i : Nat) (keys : List Text) :
    vs.Grows (vs.getKeys i keys).2 := by
  induction keys generalizing vs i with
  | nil => exact .refl
  | cons key keys ih => exact (vs.grows_get i key).trans (ih _ _)

theorem grows_addEntryValues {m : Mapping} {es : List Entry}
    (found : vs.node? i = some (.mapping m)) (inside : es ⊆ m.entries) :
    vs.Grows (vs.addEntryValues i es).2 := by
  induction es generalizing vs with
  | nil => exact .refl
  | cons e es ih =>
    obtain ⟨isEntry, inside⟩ := List.cons_subset.mp inside
    have first := grows_addEntryValue found isEntry
    exact first.trans (ih (first.node? found) inside)

theorem grows_entries (vs : Views) (i : Nat) : vs.Grows (vs.entries i).2 := by
  rw [Views.entries]
  cases isMapping : vs.mapping? i with
  | none =>
    rw [mappingView_of_none isMapping]
    exact .refl
  | some m =>
    obtain ⟨j, vs', reached, grows, onMapping⟩ := exists_mappingView isMapping
    rw [reached]
    exact grows.trans (grows_addEntryValues onMapping List.filter_sublist.subset)

/-- Writing does not change what a view is on unless it is on a scalar with another text. -/
theorem Coherent.setText_of_same (h : vs.Coherent s) {text : Text}
    (same : ∀ t, vs.node? i = some (.scalar t) → t.text = text) (j : Nat) :
    (vs.setText i text).node? j = vs.node? j ∧ (vs.setText i text).Coherent s := by
  rw [setText]
  split
  · exact ⟨rfl, h⟩
  · rename_i t onScalar
    obtain ⟨n, found, isScalar⟩ := Option.bind_eq_some_iff.mp onScalar
    obtain rfl := Node.asScalar_eq_some.mp isScalar
    have unchanged : t.withText vs.revision text = t := if_pos (same t found).symm
    rw [unchanged, update_self found fun j inside => ((h.of_mem_ancestors i).2 j inside).2]
    exact ⟨rfl, h.raise (Nat.le_succ _)⟩

/-- Writing another text to a scalar. -/
theorem Coherent.setText_of_ne (h : vs.Coherent s) {t : Scalar} {text : Text}
    (found : vs.node? i = some (.scalar t)) (changed : text ≠ t.text) :
    ∃ top new path, vs.Knows s top ∧ RewrittenAt vs.revision t text path top new ∧
      Outcome vs vs (vs.setText i text) i (vs.ancestors i) top new := by
  obtain ⟨nodup, above⟩ := h.of_mem_ancestors i
  have onScalar : (vs.node? i).bind Node.asScalar = some t := by
    rw [found]
    rfl
  have written : vs.setText i text = { vs.update i (vs.ancestors i)
      (.scalar (t.withText vs.revision text)) with revision := vs.revision + 1 } := by
    rw [setText, Option.bind_eq_bind, onScalar]
  obtain ⟨top, new, path, known, edit, -, outcome⟩ :=
    h.update_outcome (fun j _ => rfl) rfl nodup (fun j inside => (above j inside).2) found
      (RewrittenAt.scalar changed)
  rw [written]
  exact ⟨top, new, path, known, edit, ⟨outcome.nodes, outcome.live, outcome.stale⟩⟩

@[simp] theorem ancestors_setText (vs : Views) (i j : Nat) (text : Text) :
    (vs.setText i text).ancestors j = vs.ancestors j := by
  rw [setText]
  split
  · rfl
  · exact ancestors_update vs i j _ _

/-- What is known after an update was known before or is in the new tree. -/
theorem Outcome.knows {vs' : Views} {as : List Nat} {top new m : Node}
    (h : Outcome vs vs vs' i as top new) (known : vs'.Knows s m) : vs.Knows s m ∨ m ∈ new.nodes := by
  rcases known with isNode | ⟨j, k, found, below⟩
  · exact .inl (.inl isNode)
  · rcases h.nodes j with old | ⟨-, k', inside, moved⟩
    · exact .inl (.inr ⟨j, k, old ▸ found, below⟩)
    · obtain rfl := Option.some.inj (found.symm.trans moved)
      exact .inr (Node.nodes_subset inside below)

/-- Views that were on nodes still are. -/
theorem Outcome.isSome {vs' : Views} {as : List Nat} {top new : Node}
    (h : Outcome vs vs vs' i as top new) (onNode : (vs.node? j).isSome) :
    (vs'.node? j).isSome := by
  rcases h.nodes j with old | ⟨-, m, -, moved⟩
  · rwa [old]
  · exact Option.isSome_of_eq_some moved

/-- An identity names one node among those known and those of a tree whose other nodes are new. -/
theorem Coherent.unique_with (h : vs.Coherent s) {new : Node}
    (recent : ∀ k ∈ new.nodes, vs.Knows s k ∨ k.id.revision = vs.revision)
    (places : (new.nodes.map (·.id.place)).Nodup) {m n : Node}
    (isKnown : vs.Knows s m ∨ m ∈ new.nodes) (isKnown' : vs.Knows s n ∨ n ∈ new.nodes)
    (same : m.id = n.id) : m = n := by
  -- An old node and a new one differ in their revisions; two new ones are nodes of one tree.
  have apart : ∀ k k' : Node, vs.Knows s k → k'.id.revision = vs.revision → k.id ≠ k'.id := by
    intro k k' old isNew equal
    exact Nat.ne_of_lt (h.older k old) ((congrArg NodeId.revision equal).trans isNew)
  have sort : ∀ k, vs.Knows s k ∨ k ∈ new.nodes →
      vs.Knows s k ∨ k ∈ new.nodes ∧ k.id.revision = vs.revision := by
    rintro k (old | inside)
    · exact .inl old
    · exact (recent k inside).imp_right fun isNew => ⟨inside, isNew⟩
  rcases sort m isKnown with old | ⟨inside, isNew⟩
  · rcases sort n isKnown' with old' | ⟨-, isNew'⟩
    · exact h.unique m n old old' same
    · exact absurd same (apart m n old isNew')
  · rcases sort n isKnown' with old' | ⟨inside', -⟩
    · exact absurd same.symm (apart n m old' isNew)
    · exact List.inj_on_of_nodup_map places inside inside' (congrArg NodeId.place same)

theorem Coherent.setText (h : vs.Coherent s) (i : Nat) (text : Text) :
    (vs.setText i text).Coherent s := by
  by_cases same : ∀ t, vs.node? i = some (.scalar t) → t.text = text
  · exact (h.setText_of_same same i).2
  · push Not at same
    obtain ⟨t, found, differs⟩ := same
    obtain ⟨top, new, path, known, edit, outcome⟩ := h.setText_of_ne found (Ne.symm differs)
    have revision : (vs.setText i text).revision = vs.revision + 1 := by
      rw [Views.setText, found]
      rfl
    have recent : ∀ m ∈ new.nodes, vs.Knows s m ∨ m.id.revision = vs.revision := by
      intro m inside
      exact (edit.mem_nodes inside).imp_left known.below
    have places : (new.nodes.map (·.id.place)).Nodup := by
      rw [edit.places_eq]
      exact h.places top known
    refine ⟨?_, ?_, ?_, fun m n isKnown isKnown' =>
      h.unique_with recent places (outcome.knows isKnown) (outcome.knows isKnown')⟩
    · intro j
      rw [ancestors_setText]
      refine (h.chains j).imp_right fun ⟨p, earlier, onNode, chain⟩ => ?_
      exact ⟨p, earlier, outcome.isSome onNode, by rwa [ancestors_setText]⟩
    · intro m isKnown
      rcases outcome.knows isKnown with old | inside
      · exact h.places m old
      · exact places.sublist ((Node.nodes_sublist inside).map _)
    · intro m isKnown
      rw [revision]
      rcases (outcome.knows isKnown).imp_right (recent m) with old | old | isNew
      · exact Nat.lt_succ_of_lt (h.older m old)
      · exact Nat.lt_succ_of_lt (h.older m old)
      · exact isNew ▸ Nat.lt_succ_self _

/-- The only view at first is on nothing, and a stream that was read numbers its nodes. -/
theorem coherent_new {source : Text} (parsed : parse source = .ok s) : Views.new.Coherent s := by
  have fresh : ∀ i, Views.new.node? i = none ∧ Views.new.ancestors i = [] := by
    intro i
    cases i <;> exact ⟨rfl, rfl⟩
  have knows : ∀ n, Views.new.Knows s n → n ∈ s.nodes := by
    rintro n (isNode | ⟨i, m, found, -⟩)
    · exact isNode
    · rw [(fresh i).1] at found
      contradiction
  refine ⟨fun i => .inl (fresh i).2, ?_, ?_, ?_⟩
  · intro n known
    exact (places_of_parse parsed).sublist ((Stream.nodes_sublist (knows n known)).map _)
  · intro n known
    rw [revision_of_parse parsed (knows n known)]
    exact Nat.zero_lt_one
  · intro m n known known'
    exact eq_of_id parsed (knows m known) (knows n known')

end Steps

section Root

variable {s : Stream}

theorem root_of_nil (h : vs.ancestors i = []) : vs.root i = i := by
  simp only [root, h, List.getLast_singleton]

theorem root_of_cons {p : Nat} (h : vs.ancestors i = p :: vs.ancestors p) :
    vs.root i = vs.root p := by
  simp only [root, h]
  rw [List.getLast_cons_cons]

/-- A view that was reached through none is the root of those that were reached through it. -/
theorem Coherent.root_eq (h : vs.Coherent s) {r : Nat} (isRoot : vs.ancestors r = [])
    (inside : r ∈ i :: vs.ancestors i) : vs.root i = r := by
  induction i using Nat.strongRecOn with
  | ind i ih =>
    rcases List.mem_cons.mp inside with rfl | above
    · exact root_of_nil isRoot
    · rcases h.chains i with none | ⟨p, earlier, -, chain⟩
      · rw [none] at above
        contradiction
      · rw [root_of_cons chain]
        rw [chain] at above
        exact ih p earlier above

/-- The tree `n'` is the tree `n` but for the scalar that the view `w` is on, which reads `text`. -/
def RewrittenThrough (vs : Views) (w : Nat) (text : Text) (n n' : Node) : Prop :=
  ∃ t path, vs.node? w = some (.scalar t) ∧ DifferAt path t text n n'

theorem Coherent.root_of_setText (h : vs.Coherent s) (w : Nat) (text : Text) {r : Nat}
    (isRoot : vs.ancestors r = []) (found : vs.node? r = some n) :
    ∃ n', (vs.setText w text).node? r = some n' ∧ (n' = n ↔ ¬ vs.RewrittenThrough w text n n') ∧
      (vs.RewrittenThrough w text n n' ↔
        vs.root w = r ∧ vs.ChainLive w ∧ ∃ t, vs.node? w = some (.scalar t) ∧ t.text ≠ text) := by
  have same : ¬ vs.RewrittenThrough w text n n := by
    rintro ⟨t, path, -, differs⟩
    exact differs.ne rfl
  by_cases unchanged : ∀ t, vs.node? w = some (.scalar t) → t.text = text
  · refine ⟨n, (h.setText_of_same unchanged r).1.trans found, iff_of_true rfl same,
      iff_of_false same ?_⟩
    rintro ⟨-, -, t, onScalar, changed⟩
    exact changed (unchanged t onScalar)
  · push Not at unchanged
    obtain ⟨t, onScalar, changed⟩ := unchanged
    obtain ⟨top, new, path, known, edit, outcome⟩ := h.setText_of_ne onScalar changed.symm
    by_cases below : r ∈ w :: vs.ancestors w
    · obtain rfl := h.root_eq isRoot below
      by_cases chain : vs.ChainLive w
      · obtain ⟨found', moved⟩ := outcome.live chain
        obtain rfl := Option.some.inj (found.symm.trans found')
        have older : ∀ m ∈ n.nodes, m.id.revision ≠ vs.revision := fun m inside =>
          Nat.ne_of_lt (h.older m (known.below inside))
        have differs := edit.differAt older
        have rewritten : vs.RewrittenThrough w text n new := ⟨t, path, onScalar, differs⟩
        exact ⟨new, moved, iff_of_false differs.ne (not_not_intro rewritten),
          iff_of_true rewritten ⟨rfl, chain, t, onScalar, changed⟩⟩
      · refine ⟨n, (outcome.stale chain).trans found, iff_of_true rfl same, iff_of_false same ?_⟩
        exact fun ⟨_, live, _⟩ => chain live
    · have unmoved : (vs.setText w text).node? r = vs.node? r := by
        rcases outcome.nodes r with old | ⟨inside, -⟩
        · exact old
        · exact absurd inside below
      refine ⟨n, unmoved.trans found, iff_of_true rfl same, iff_of_false same ?_⟩
      rintro ⟨rfl, -, -⟩
      exact below (List.getLast_mem _)

end Root

end Views

end ConfigTree.Yaml
