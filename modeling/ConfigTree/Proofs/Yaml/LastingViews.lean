import ConfigTree.Proofs.Yaml.DottedPath
import ConfigTree.Proofs.Yaml.Forms
import ConfigTree.Proofs.Yaml.Session

/-!
# Lasting views

A write puts trees of one form into each other's places. So a view stays what it was when it was
taken, on a node of the same kind and behind the same keys, even if it is stale. What has to be seen
is that a write never goes through a key: no view was reached through an entry and is on its key.
-/

namespace ConfigTree.Yaml

namespace Views

variable {s : Stream} {vs vs' vs'' : Views} {i : Nat}

/-- The views are still there, reached through the same views and on nodes of the same form. -/
structure Keeps (vs vs' : Views) : Prop where
  length : vs.views.length ≤ vs'.views.length
  ancestors : ∀ i < vs.views.length, vs'.ancestors i = vs.ancestors i
  forms : ∀ i < vs.views.length, (vs'.node? i).map Node.forms = (vs.node? i).map Node.forms

theorem Keeps.refl (vs : Views) : vs.Keeps vs := ⟨Nat.le_refl _, fun _ _ => rfl, fun _ _ => rfl⟩

theorem Keeps.trans (h : vs.Keeps vs') (h' : vs'.Keeps vs'') : vs.Keeps vs'' where
  length := h.length.trans h'.length
  ancestors i inside :=
    (h'.ancestors i (inside.trans_le h.length)).trans (h.ancestors i inside)
  forms i inside := (h'.forms i (inside.trans_le h.length)).trans (h.forms i inside)

theorem keeps_of_within (within : vs.views <+: vs'.views) : vs.Keeps vs' := by
  obtain ⟨more, views⟩ := within
  have same : ∀ i < vs.views.length, vs'.views[i]? = vs.views[i]? := fun i inside => by
    rw [← views, List.getElem?_append_left inside]
  refine ⟨?_, fun i inside => ?_, fun i inside => ?_⟩
  · rw [← views, List.length_append]
    exact Nat.le_add_right _ _
  · rw [ancestors, ancestors, same i inside]
  · rw [node?, node?, same i inside]

/-- The node of a kept view has the form of the node that it was on. -/
theorem Keeps.exists_node (h : vs.Keeps vs') (inside : i < vs.views.length) {n' : Node}
    (found : vs'.node? i = some n') : ∃ n, vs.node? i = some n ∧ n'.forms = n.forms := by
  have forms := h.forms i inside
  rw [found, Option.map_some, eq_comm, Option.map_eq_some_iff] at forms
  obtain ⟨n, onNode, same⟩ := forms
  exact ⟨n, onNode, same.symm⟩

theorem keys_eq (vs : Views) (i : Nat) : vs.keys i =
    ((i :: vs.ancestors i).flatMap fun j => ((vs.node? j).map Node.ownKeys).getD []).reverse := by
  rw [keys, List.filterMap_eq_flatMap_toList]
  congr 2
  funext j
  cases vs.node? j with
  | none => rfl
  | some n => exact n.ownKeys_eq_toList.symm

theorem keys_congr (chain : vs'.ancestors i = vs.ancestors i)
    (same : ∀ j ∈ i :: vs.ancestors i,
      (vs'.node? j).map Node.ownKeys = (vs.node? j).map Node.ownKeys) : vs'.keys i = vs.keys i := by
  rw [keys_eq, keys_eq, chain]
  congr 1
  exact List.flatMap_congr fun j inside => by rw [same j inside]

/-- A view is behind the keys of the view that it was reached through, and its own. -/
theorem keys_of_cons {p : Nat} (chain : vs.ancestors i = p :: vs.ancestors p) :
    vs.keys i = vs.keys p ++ ((vs.node? i).map Node.ownKeys).getD [] := by
  have reverse (n : Node) : n.ownKeys.reverse = n.ownKeys := by cases n <;> rfl
  rw [keys_eq, keys_eq, chain, List.flatMap_cons, List.reverse_append]
  congr 1
  cases vs.node? i with
  | none => rfl
  | some n => exact reverse n

theorem map_eq_of_forms {α : Type} {f : Node → α} {n n' : Option Node}
    (h : n'.map Node.forms = n.map Node.forms)
    (respects : ∀ {m m' : Node}, m'.forms = m.forms → f m' = f m) : n'.map f = n.map f := by
  cases n with
  | none => rw [Option.map_eq_none_iff.mp h, Option.map_none]
  | some m =>
    obtain ⟨m', rfl, same⟩ := Option.map_eq_some_iff.mp h
    exact congrArg some (respects same)

/-- A kept view is behind the same keys. -/
theorem Keeps.keys (h : vs.Keeps vs') (coherent : vs.Coherent s) (inside : i < vs.views.length) :
    vs'.keys i = vs.keys i := by
  refine keys_congr (h.ancestors i inside) fun j onChain => map_eq_of_forms (h.forms j ?_)
    Node.ownKeys_of_forms
  rcases List.mem_cons.mp onChain with rfl | above
  · exact inside
  · exact ((coherent.of_mem_ancestors i).2 j above).1.trans inside

/-- Among the later views `vs'` the view `i` is what it is among `vs`: on a node of the same kind or
on nothing, behind the same keys, and with as many mappings inside. -/
structure Stays (vs vs' : Views) (i : Nat) : Prop where
  isOnNode : vs'.isOnNode i = vs.isOnNode i
  kind : (vs'.node? i).map Node.kind = (vs.node? i).map Node.kind
  keys : vs'.keys i = vs.keys i
  path : vs'.path i = vs.path i
  size : vs'.size i = vs.size i

theorem size_eq (vs : Views) (i : Nat) : vs.size i = ((vs.node? i).map Node.size).getD 0 := by
  rw [size, mapping?_eq]
  cases vs.node? i <;> rfl

theorem Keeps.stays (h : vs.Keeps vs') (coherent : vs.Coherent s) (inside : i < vs.views.length) :
    vs.Stays vs' i := by
  have forms := h.forms i inside
  have keys := h.keys coherent inside
  refine ⟨?_, map_eq_of_forms forms Node.kind_of_forms, keys, ?_, ?_⟩
  · simpa only [isOnNode, Option.isSome_map] using congrArg Option.isSome forms
  · rw [path, path, keys]
  · rw [size_eq, size_eq, map_eq_of_forms forms Node.size_of_forms]

/-- Where the view `i` is: the topmost one on a document or a mapping, which put no key around what
is inside, and one that was reached through an entry on the value of this entry. -/
structure PlacedAt (vs : Views) (i : Nat) : Prop where
  root : vs.ancestors i = [] → ∀ n, vs.node? i = some n → n.ownKeys = []
  value : ∀ p ps e n, vs.ancestors i = p :: ps → vs.node? p = some (.entry e) →
    vs.node? i = some n → n.id.place = e.value.id.place

/-- The first view is on nothing, and the others are where they were put. -/
structure Placed (vs : Views) : Prop where
  start : Views.new.views <+: vs.views
  each : ∀ i, vs.PlacedAt i

theorem placedAt_of_none (h : vs.node? i = none) : vs.PlacedAt i := by
  refine ⟨fun _ n found => ?_, fun _ _ _ n _ _ found => ?_⟩ <;>
  · rw [h] at found
    contradiction

theorem Keeps.placedAt (h : vs.Keeps vs') (coherent : vs.Coherent s) (inside : i < vs.views.length)
    (placed : vs.PlacedAt i) : vs'.PlacedAt i := by
  refine ⟨fun top n' found => ?_, fun p ps e' n' chain above found => ?_⟩
  · obtain ⟨n, onNode, same⟩ := h.exists_node inside found
    rw [h.ancestors i inside] at top
    rw [Node.ownKeys_of_forms same]
    exact placed.root top n onNode
  · obtain ⟨n, onNode, same⟩ := h.exists_node inside found
    rw [h.ancestors i inside] at chain
    have earlier := (coherent.of_ancestors_cons chain).1
    obtain ⟨m, onEntry, alike⟩ := h.exists_node (earlier.trans inside) above
    obtain ⟨e, rfl⟩ := Node.kind_eq_entry.mp (Node.kind_of_forms alike).symm
    have value : e'.value.toNode.forms = e.value.toNode.forms :=
      Option.some.inj (Node.children_of_forms alike 1)
    have place := placed.value p ps e n chain onEntry onNode
    rw [Node.place_of_forms same, place, ← Node.id_toNode, ← Node.id_toNode,
      Node.place_of_forms value]

/-- One more view, where it belongs. -/
theorem Placed.add (placed : vs.Placed) (coherent : vs.Coherent s) {view : View}
    (views : vs'.views = vs.views ++ [view]) (new : vs'.PlacedAt vs.views.length) : vs'.Placed := by
  have within : vs.views <+: vs'.views := views ▸ List.prefix_append _ _
  refine ⟨placed.start.trans within, fun i => ?_⟩
  rcases Nat.lt_trichotomy i vs.views.length with inside | rfl | beyond
  · exact (keeps_of_within within).placedAt coherent inside (placed.each i)
  · exact new
  · apply placedAt_of_none
    rw [node?, List.getElem?_eq_none]
    · rfl
    · rw [views, List.length_append]
      exact beyond

theorem Placed.addRoot (placed : vs.Placed) (coherent : vs.Coherent s) {n : Node}
    (noKeys : n.ownKeys = []) : (vs.addRoot n).2.Placed := by
  refine placed.add coherent rfl ⟨fun _ m found => ?_, fun p _ _ _ chain _ _ => ?_⟩
  · have onNode : (vs.addRoot n).2.node? vs.views.length = some n := node?_add_self _ _
    obtain rfl := Option.some.inj (onNode.symm.trans found)
    exact noKeys
  · have top : (vs.addRoot n).2.ancestors vs.views.length = [] := ancestors_add_self _ _
    rw [top] at chain
    contradiction

/-- One more view on a child that is no key. -/
theorem Placed.addChild (placed : vs.Placed) (coherent : vs.Coherent s) {n : Node}
    {place : Slot × Node} (found : vs.node? i = some n) (isSlot : place ∈ n.slots)
    (notKey : place.1 ≠ .key) : (vs.addChild i place.2).2.Placed := by
  have chain : (vs.addChild i place.2).2.ancestors vs.views.length = i :: vs.ancestors i :=
    ancestors_add_self _ _
  have onChild : (vs.addChild i place.2).2.node? vs.views.length = some place.2 :=
    node?_addChild_self vs i _
  refine placed.add coherent rfl ⟨fun top => ?_, fun p _ e m chain' above found' => ?_⟩
  · rw [chain] at top
    contradiction
  · obtain rfl : i = p := (List.cons.inj (chain.symm.trans chain')).1
    obtain rfl := Option.some.inj (onChild.symm.trans found')
    obtain rfl := Option.some.inj ((node?_add_of_eq_some found).symm.trans above)
    rcases List.mem_cons.mp isSlot with rfl | isSlot
    · exact absurd rfl notKey
    · rw [List.mem_singleton.mp isSlot, Node.id_toNode]

theorem Grows.placed (h : vs.Grows vs') (placed : vs.Placed) (coherent : vs.Coherent s) :
    vs'.Placed := by
  induction h with
  | refl => exact placed
  | child before found isSlot notKey ih =>
    exact ih.addChild (before.coherent coherent) found isSlot notKey

/-! ## Writing keeps views -/

@[simp] theorem length_update (vs : Views) (i : Nat) (as : List Nat) (after : Node) :
    (vs.update i as after).views.length = vs.views.length := by
  induction as generalizing vs i after with
  | nil => exact List.length_modify _ _ _
  | cons p ps ih =>
    rw [update]
    split
    · rw [ih]
      exact List.length_modify _ _ _
    · exact List.length_modify _ _ _

theorem forms_moveTo {j : Nat} {before after : Node} (found : vs.node? i = some before)
    (alike : after.forms = before.forms) :
    ((vs.moveTo i after).node? j).map Node.forms = (vs.node? j).map Node.forms := by
  rcases node?_moveTo (n := after) (Option.isSome_of_eq_some found) j with unmoved | ⟨rfl, moved⟩
  · rw [unmoved]
  · rw [moved, found, Option.map_some, Option.map_some, alike]

/-- A view was not reached through an entry and is on its key, so a node of the same form can
stand in the place of its node. -/
theorem Placed.forms_substitute (placed : vs.Placed) (coherent : vs.Coherent s) {p revision : Nat}
    {ps : List Nat} {parent before after : Node} (chain : vs.ancestors i = p :: ps)
    (onParent : vs.node? p = some parent) (found : vs.node? i = some before)
    (alike : after.forms = before.forms) :
    (parent.substitute revision before after).forms = parent.forms := by
  have known := coherent.knows_of_node onParent
  refine Node.forms_substitute (coherent.nodup_children known) ?_ ?_ alike
  · intro child isChild equal
    have knownChild := known.below (Node.mem_nodes_of_child isChild)
    exact coherent.unique child before knownChild (coherent.knows_of_node found) equal
  · rintro e rfl equal
    have apart := (coherent.places _ known).sublist ((Node.entry e).children_sublist.map _)
    have onValue := (placed.each i).value p ps e before chain onParent found
    rw [equal] at onValue
    simp only [Node.children, List.map_cons, List.map_nil, List.nodup_cons, List.mem_singleton,
      Node.id_toNode] at apart
    exact apart.1 onValue

/-- An update puts trees of one form into each other's places. -/
theorem Placed.forms_update (placed : vs.Placed) (coherent : vs.Coherent s) {ws : Views}
    {as : List Nat} {before after : Node} (same : ∀ j ∈ i :: as, ws.node? j = vs.node? j)
    (chain : vs.ancestors i = as) (found : vs.node? i = some before)
    (alike : after.forms = before.forms) (j : Nat) :
    ((ws.update i as after).node? j).map Node.forms = (ws.node? j).map Node.forms := by
  induction as generalizing i before after ws with
  | nil => exact forms_moveTo ((same i List.mem_cons_self).trans found) alike
  | cons p ps ih =>
    obtain ⟨-, onNode, chain'⟩ := coherent.of_ancestors_cons chain
    obtain ⟨parent, onParent⟩ := Option.isSome_iff_exists.mp onNode
    have found' : ws.node? i = some before := (same i List.mem_cons_self).trans found
    have onParent' : ws.node? p = some parent :=
      (same p (List.mem_cons_of_mem _ List.mem_cons_self)).trans onParent
    have same' : ∀ j ∈ p :: ps, (ws.moveTo i after).node? j = vs.node? j := by
      intro j inside
      have nodup := (coherent.of_mem_ancestors i).1
      rw [chain] at nodup
      have other : j ≠ i := by
        rintro rfl
        exact (List.nodup_cons.mp nodup).1 inside
      rw [node?_moveTo_ne other, same j (List.mem_cons_of_mem _ inside)]
    have substituted : (parent.substitute ws.revision before after).forms = parent.forms :=
      placed.forms_substitute coherent chain onParent found alike
    rw [update_cons found' onParent']
    exact (ih same' chain' onParent substituted).trans (forms_moveTo found' alike)

theorem Placed.keeps_setText (placed : vs.Placed) (coherent : vs.Coherent s) (i : Nat)
    (text : Text) : vs.Keeps (vs.setText i text) ∧
      (vs.setText i text).views.length = vs.views.length := by
  have length : (vs.setText i text).views.length = vs.views.length := by
    rw [setText]
    split
    · rfl
    · exact length_update _ _ _ _
  refine ⟨⟨length.ge, fun j _ => ancestors_setText vs i j text, fun j _ => ?_⟩, length⟩
  cases onScalar : vs.node? i >>= Node.asScalar with
  | none => rw [setText, onScalar]
  | some t =>
    obtain ⟨n, found, isScalar⟩ := Option.bind_eq_some_iff.mp onScalar
    obtain rfl := Node.asScalar_eq_some.mp isScalar
    have written : (vs.setText i text).node? j =
        (vs.update i (vs.ancestors i) (.scalar (t.withText vs.revision text))).node? j := by
      rw [setText, onScalar]
      rfl
    rw [written]
    exact placed.forms_update coherent (fun _ _ => rfl) rfl found (Node.forms_withText _ t text) j

/-- The first view of the session stays on nothing. -/
theorem Keeps.start (h : vs.Keeps vs') (start : Views.new.views <+: vs.views) :
    Views.new.views <+: vs'.views := by
  obtain ⟨more, views⟩ := start
  have inside : nothing < vs.views.length := by
    rw [← views]
    exact Nat.succ_pos _
  have node : vs'.node? nothing = none := by
    rw [← Option.map_eq_none_iff, h.forms nothing inside, node?, ← views]
    rfl
  have ancestors : vs'.ancestors nothing = [] := by
    rw [h.ancestors nothing inside, Views.ancestors, ← views]
    rfl
  cases views' : vs'.views with
  | nil =>
    have length := h.length
    rw [views'] at length
    exact absurd (inside.trans_le length) (Nat.lt_irrefl _)
  | cons view rest =>
    refine ⟨rest, congrArg (· :: rest) ?_⟩
    rw [node?, views'] at node
    rw [Views.ancestors, views'] at ancestors
    exact congrArg₂ View.mk node.symm ancestors.symm

theorem Placed.setText (placed : vs.Placed) (coherent : vs.Coherent s) (i : Nat) (text : Text) :
    (vs.setText i text).Placed := by
  obtain ⟨keeps, length⟩ := placed.keeps_setText coherent i text
  refine ⟨keeps.start placed.start, fun j => ?_⟩
  by_cases inside : j < vs.views.length
  · exact keeps.placedAt coherent inside (placed.each j)
  · apply placedAt_of_none
    rw [node?, List.getElem?_eq_none]
    · rfl
    · rw [length]
      exact Nat.le_of_not_lt inside

theorem placed_new : Views.new.Placed := by
  refine ⟨List.prefix_refl _, fun i => placedAt_of_none ?_⟩
  cases i <;> rfl

/-- One call. -/
theorem Placed.call (placed : vs.Placed) (coherent : vs.Coherent s) (c : Call) :
    (c.run s vs).Placed ∧ vs.Keeps (c.run s vs) := by
  have same : vs.Placed ∧ vs.Keeps vs := ⟨placed, .refl vs⟩
  have root {n : Node} (noKeys : n.ownKeys = []) :
      (vs.addRoot n).2.Placed ∧ vs.Keeps (vs.addRoot n).2 :=
    ⟨placed.addRoot coherent noKeys, keeps_of_within (List.prefix_append _ _)⟩
  have grown {vs' : Views} (h : vs.Grows vs') : vs'.Placed ∧ vs.Keeps vs' :=
    ⟨h.placed placed coherent, keeps_of_within h.within⟩
  cases c with
  | build d =>
    rw [Call.run]
    cases s.documents[d]? with
    | none => exact same
    | some document => exact root rfl
  | buildMapping address =>
    rw [Call.run]
    split
    · exact root rfl
    · exact same
  | rebuild i =>
    rw [Call.run]
    cases vs.document? i with
    | none => exact same
    | some document => exact root rfl
  | rebuildMapping i =>
    rw [Call.run]
    cases vs.mapping? i with
    | none => exact same
    | some m => exact root rfl
  | get i key => exact grown (vs.grows_get i key)
  | getPath i path => exact grown (vs.grows_getKeys i _)
  | entries i => exact grown (vs.grows_entries i)
  | setText i text =>
    exact ⟨placed.setText coherent i text, (placed.keeps_setText coherent i text).1⟩

theorem Placed.calls (placed : vs.Placed) (coherent : vs.Coherent s) (calls : List Call) :
    (calls.foldl (Call.run s) vs).Placed ∧ vs.Keeps (calls.foldl (Call.run s) vs) := by
  induction calls generalizing vs with
  | nil => exact ⟨placed, .refl vs⟩
  | cons c calls ih =>
    obtain ⟨next, keeps⟩ := placed.call coherent c
    obtain ⟨last, keeps'⟩ := ih next (coherent.call c)
    exact ⟨last, keeps.trans keeps'⟩

section

variable {source : Text}

theorem placed_session (parsed : parse source = .ok s) (calls : List Call) :
    (session s calls).Placed :=
  (placed_new.calls (coherent_new parsed) calls).1

/-- A session that goes on keeps its views. -/
theorem keeps_session (parsed : parse source = .ok s) (calls more : List Call) :
    (session s calls).Keeps (session s (calls ++ more)) := by
  rw [session, session, List.foldl_append]
  exact ((placed_session parsed calls).calls (coherent_session parsed calls) more).2

end

/-! ## Keys on the way down -/

theorem Grows.keys (h : vs.Grows vs') (coherent : vs.Coherent s) (onNode : (vs.node? i).isSome) :
    vs'.keys i = vs.keys i :=
  (keeps_of_within h.within).keys coherent (lt_of_node onNode)

theorem keys_addChild (coherent : vs.Coherent s) {n : Node} {place : Slot × Node}
    (found : vs.node? i = some n) (isSlot : place ∈ n.slots) (notKey : place.1 ≠ .key) :
    (vs.addChild i place.2).2.keys (vs.addChild i place.2).1 = vs.keys i ++ place.2.ownKeys := by
  have onNode := Option.isSome_of_eq_some found
  have grows : vs.Grows (vs.addChild i place.2).2 := .child .refl found isSlot notKey
  have above : (vs.addChild i place.2).2.ancestors i = vs.ancestors i := ancestors_add onNode
  have chain : (vs.addChild i place.2).2.ancestors (vs.addChild i place.2).1 =
      i :: (vs.addChild i place.2).2.ancestors i := by
    rw [above]
    exact ancestors_add_self _ _
  rw [keys_of_cons chain, grows.keys coherent onNode, node?_addChild_self, Option.map_some,
    Option.getD_some]

/-- The view on the mapping is behind the same keys. -/
theorem keys_mappingView (coherent : vs.Coherent s) {m : Mapping} {j : Nat}
    (reached : vs.mappingView i = (some (j, m), vs')) : vs'.keys j = vs.keys i := by
  cases isMapping : vs.mapping? i with
  | none =>
    cases (mappingView_of_none isMapping).symm.trans reached
  | some m' =>
    rcases mappingView_of_some isMapping with ⟨-, same⟩ | ⟨n, found, isSlot, below⟩
    · cases same.symm.trans reached
      rfl
    · cases below.symm.trans reached
      exact (keys_addChild coherent found isSlot (by simp)).trans (List.append_nil _)

theorem keys_addEntryValue (coherent : vs.Coherent s) {m : Mapping} {e : Entry}
    (found : vs.node? i = some (.mapping m)) (isEntry : e ∈ m.entries) :
    (vs.addEntryValue i e).2.keys (vs.addEntryValue i e).1 = vs.keys i ++ [e.key.text] := by
  have isSlot := Node.mem_slots_of_entry isEntry
  have coherent' : (vs.addChild i (.entry e)).2.Coherent s :=
    coherent.addChild found (Node.mem_children_of_slots isSlot)
  have entry := keys_addChild coherent found isSlot (by simp)
  have value := keys_addChild coherent' (node?_addChild_self vs i _) (Node.mem_slots_of_value e)
    (by simp)
  rw [Value.ownKeys_toNode, List.append_nil] at value
  exact value.trans entry

/-- A key that is found is one more key. -/
theorem keys_get (coherent : vs.Coherent s) {key : Text} {m : Mapping} {e : Entry}
    (isMapping : vs.mapping? i = some m) (isEntry : m.find? key = some e) :
    (vs.get i key).2.keys (vs.get i key).1 = vs.keys i ++ [key] := by
  obtain ⟨j, vs', reached, grows, onMapping⟩ := exists_mappingView isMapping
  have isKey : e.key.text = key := by simpa using List.find?_some isEntry
  rw [Views.get, reached]
  simp only [isEntry]
  rw [keys_addEntryValue (grows.coherent coherent) onMapping (List.mem_of_find?_eq_some isEntry),
    keys_mappingView coherent reached, isKey]

/-- A view on a node that keys lead to is behind these keys. -/
theorem keys_getKeys (coherent : vs.Coherent s) (start : Views.new.views <+: vs.views)
    (keys : List Text) (onNode : (vs.getKeys i keys).2.isOnNode (vs.getKeys i keys).1) :
    (vs.getKeys i keys).2.keys (vs.getKeys i keys).1 = vs.keys i ++ keys := by
  induction keys generalizing vs i with
  | nil => exact (List.append_nil _).symm
  | cons key keys ih =>
    rw [getKeys_cons] at onNode ⊢
    cases isEntry : (vs.mapping? i).bind (·.find? key) with
    | none =>
      obtain ⟨isNothing, within⟩ := get_of_none isEntry
      have start' := start.trans within
      rw [isNothing, isOnNode, getKeys_of_none start' (node?_nothing start')] at onNode
      contradiction
    | some e =>
      obtain ⟨m, isMapping, isEntry⟩ := Option.bind_eq_some_iff.mp isEntry
      have grows := vs.grows_get i key
      rw [ih (grows.coherent coherent) (start.trans grows.within) onNode,
        keys_get coherent isMapping isEntry, List.append_assoc, List.singleton_append]

/-- What is listed stands for the entries, in their order. -/
theorem listed_addEntryValues (coherent : vs.Coherent s) {m : Mapping} {es : List Entry}
    (found : vs.node? i = some (.mapping m)) (inside : es ⊆ m.entries) {listed : Text × Nat}
    (isListed : listed ∈ (vs.addEntryValues i es).1) :
    (vs.addEntryValues i es).2.keys listed.2 = vs.keys i ++ [listed.1] ∧
      ∃ e ∈ es, (vs.addEntryValues i es).2.node? listed.2 = some e.value.toNode := by
  induction es generalizing vs with
  | nil => exact absurd isListed List.not_mem_nil
  | cons e es ih =>
    obtain ⟨isEntry, inside⟩ := List.cons_subset.mp inside
    have first := grows_addEntryValue found isEntry
    have coherent' := first.coherent coherent
    have found' := first.node? found
    rcases List.mem_cons.mp isListed with rfl | isListed
    · have rest : (vs.addEntryValue i e).2.Grows ((vs.addEntryValue i e).2.addEntryValues i es).2 :=
        grows_addEntryValues found' inside
      have onValue :
          (vs.addEntryValue i e).2.node? (vs.addEntryValue i e).1 = some e.value.toNode :=
        node?_addChild_self _ _ _
      refine ⟨?_, e, List.mem_cons_self, rest.node? onValue⟩
      exact (rest.keys coherent' (Option.isSome_of_eq_some onValue)).trans
        (keys_addEntryValue coherent found isEntry)
    · obtain ⟨keys, e', isEntry', onValue⟩ := ih coherent' found' inside isListed
      refine ⟨?_, e', List.mem_cons_of_mem _ isEntry', onValue⟩
      rw [first.keys coherent (Option.isSome_of_eq_some found)] at keys
      exact keys

theorem length_addEntryValues (vs : Views) (i : Nat) (es : List Entry) :
    (vs.addEntryValues i es).1.length = es.length := by
  induction es generalizing vs with
  | nil => rfl
  | cons e es ih => exact congrArg Nat.succ (ih _)

/-- What is listed is on mappings, each behind one more key than the view that lists it. -/
theorem listed_entries (coherent : vs.Coherent s) {listed : Text × Nat}
    (isListed : listed ∈ (vs.entries i).1) :
    (vs.entries i).2.keys listed.2 = vs.keys i ++ [listed.1] ∧
      ∃ m, (vs.entries i).2.node? listed.2 = some (.mapping m) := by
  cases isMapping : vs.mapping? i with
  | none =>
    rw [Views.entries, mappingView_of_none isMapping] at isListed
    exact absurd isListed List.not_mem_nil
  | some m =>
    obtain ⟨j, vs', reached, grows, onMapping⟩ := exists_mappingView isMapping
    rw [Views.entries, reached] at isListed ⊢
    obtain ⟨keys, e, isEntry, onValue⟩ := listed_addEntryValues (grows.coherent coherent) onMapping
      List.filter_sublist.subset isListed
    rw [keys_mappingView coherent reached] at keys
    obtain ⟨v, value⟩ : ∃ v, e.value = .mapping v := by
      have isMapping := (List.mem_filter.mp isEntry).2
      cases value : e.value with
      | mapping v => exact ⟨v, rfl⟩
      | scalar | sequence => simp [value, Value.isMapping, Value.asMapping] at isMapping
    rw [value] at onValue
    exact ⟨keys, v, onValue⟩

/-- As many views are listed as there are entries with a mapping as their value. -/
theorem length_entries (vs : Views) (i : Nat) : (vs.entries i).1.length = vs.size i := by
  rw [Views.size, Views.entries]
  cases isMapping : vs.mapping? i with
  | none =>
    rw [mappingView_of_none isMapping]
    rfl
  | some m =>
    obtain ⟨j, vs', reached, -, -⟩ := exists_mappingView isMapping
    rw [reached]
    exact (length_addEntryValues _ _ _).trans List.countP_eq_length_filter.symm

end Views

/-- Whatever is done, by writes through stale views too, every view stays what it is: on a node of
the same kind or on nothing, behind the same keys. A view that a path leads to from a root is behind
this path unless it is on nothing. What is listed is on mappings, and behind the keys of the view
that lists it and its own. There are as many as this view counts. The view on nothing stays
on nothing. -/
theorem views_after_calls {source : Text} {s : Stream} (parsed : parse source = .ok s)
    (calls more : List Call) :
    (∀ i < (session s calls).views.length,
      (session s calls).Stays (session s (calls ++ more)) i) ∧
    (∀ (r : Nat) (path : Text), (session s calls).ancestors r = [] →
      ((session s calls).getPath r path).2.isOnNode ((session s calls).getPath r path).1 = true →
      (session s (calls ++ .getPath r path :: more)).path
        ((session s calls).getPath r path).1 = path) ∧
    (∀ i, ∀ listed ∈ ((session s calls).entries i).1,
      (∃ m, (session s (calls ++ .entries i :: more)).node? listed.2 = some (.mapping m)) ∧
      (session s (calls ++ .entries i :: more)).path listed.2 =
        Text.joinWith '.' ((session s calls).keys i ++ [listed.1])) ∧
    (∀ i, ((session s calls).entries i).1.length = (session s calls).size i) ∧
    (session s calls).node? Views.nothing = none := by
  have coherent := Views.coherent_session parsed calls
  have placed := Views.placed_session parsed calls
  have stays (c : Call) (i : Nat) (onNode : ((c.run s (session s calls)).node? i).isSome) :
      (c.run s (session s calls)).Stays (session s (calls ++ c :: more)) i := by
    have keeps := ((placed.call coherent c).1.calls (coherent.call c) more).2
    rw [session, session, List.foldl_append]
    exact keeps.stays (coherent.call c) (Views.lt_of_node onNode)
  refine ⟨fun i inside => ?_, fun r path isRoot onNode => ?_, fun i listed isListed => ?_,
    fun i => Views.length_entries _ i, Views.node?_nothing placed.start⟩
  · exact (Views.keeps_session parsed calls more).stays coherent inside
  · have keys : (session s calls).keys r = [] := by
      rw [Views.keys_eq, isRoot, List.flatMap_singleton]
      cases found : (session s calls).node? r with
      | none => rfl
      | some n => exact congrArg List.reverse ((placed.each r).root isRoot n found)
    rw [(stays (.getPath r path) _ onNode).path]
    have reached := Views.keys_getKeys coherent placed.start (Text.splitOn '.' path) onNode
    rw [keys, List.nil_append] at reached
    exact (congrArg (Text.joinWith '.') reached).trans (Text.joinWith_splitOn '.' path)
  · obtain ⟨keys, m, onMapping⟩ := Views.listed_entries coherent isListed
    have stays := stays (.entries i) listed.2 (Option.isSome_of_eq_some onMapping)
    refine ⟨?_, ?_⟩
    · have kind := stays.kind
      rw [Call.run, onMapping, Option.map_some] at kind
      obtain ⟨n, found, isMapping⟩ := Option.map_eq_some_iff.mp kind
      obtain ⟨m', rfl⟩ := Node.kind_eq_mapping.mp isMapping
      exact ⟨m', found⟩
    · rw [stays.path, Call.run, Views.path, keys]

def twoBranchesText : Text := "a: {b: {c: 1}, d: 2}\n".toList

/-- A view on `d`, and a write through another view that cuts it off. -/
def cutOff : List Call := [.getPath 1 "a.b.c".toList, .setText 13 ['x']]

theorem views_after_calls_twoBranches :
    ∃ s, parse twoBranchesText = .ok s ∧
      (session s ([.build 0] ++ .getPath 1 "a.d".toList :: cutOff)).path 6 = "a.d".toList ∧
      ¬ (session s ([.build 0] ++ .getPath 1 "a.d".toList :: cutOff)).ChainLive 6 := by
  obtain ⟨s, parsed, isRoot, onNode, reached, stale⟩ : ∃ s, parse twoBranchesText = .ok s ∧
      (session s [.build 0]).ancestors 1 = [] ∧
      ((session s [.build 0]).getPath 1 "a.d".toList).2.isOnNode
        ((session s [.build 0]).getPath 1 "a.d".toList).1 = true ∧
      ((session s [.build 0]).getPath 1 "a.d".toList).1 = 6 ∧
      ¬ (session s ([.build 0] ++ .getPath 1 "a.d".toList :: cutOff)).ChainLive 6 :=
    exists_parse (by decide +kernel)
  obtain ⟨-, path, -⟩ := views_after_calls parsed [.build 0] cutOff
  have behind := path 1 "a.d".toList isRoot onNode
  rw [reached] at behind
  exact ⟨s, parsed, behind, stale⟩

end ConfigTree.Yaml
