import ConfigTree.Proofs.Yaml.Views
import ConfigTree.Yaml.Edit
import Mathlib.Data.List.Pairwise

/-!
# Scalars at dotted paths

Reading by a dotted path looks up one key after the other, in the first entry that has it. Setting
goes through the views that this leaves behind, and each of them is on a child of the next, so that
the document changes in the scalar at that path and reads at every other path as before.
-/

namespace ConfigTree.Yaml

/-- The node reached by one key after the other: for each the value of the first entry
that has it. -/
def Node.lookup (n : Node) : List Text → Option Node
  | [] => some n
  | key :: keys => n.mapping?.bind fun m => (m.find? key).bind fun e => e.value.toNode.lookup keys

def Node.text? (n : Node) : Option Text := n.asScalar.map Scalar.text

theorem Node.lookup_cons {n : Node} {key : Text} {keys : List Text} {m : Mapping} {e : Entry}
    (isMapping : n.mapping? = some m) (found : m.find? key = some e) :
    n.lookup (key :: keys) = e.value.toNode.lookup keys := by
  rw [lookup, isMapping, Option.bind_some, found, Option.bind_some]

theorem Node.lookup_cons_eq_some {n n' : Node} {key : Text} {keys : List Text}
    (h : n.lookup (key :: keys) = some n') :
    ∃ m e, n.mapping? = some m ∧ m.find? key = some e ∧ e.value.toNode.lookup keys = some n' := by
  obtain ⟨m, isMapping, h⟩ := Option.bind_eq_some_iff.mp h
  obtain ⟨e, found, h⟩ := Option.bind_eq_some_iff.mp h
  exact ⟨m, e, isMapping, found, h⟩

theorem Node.text?_of_mapping {n : Node} {m : Mapping} (h : n.mapping? = some m) :
    n.text? = none := by
  cases n with
  | scalar s => contradiction
  | document | mapping | entry | sequence | item => rfl

/-- The entries of the mapping that a node is or has are below it. -/
theorem Node.mem_nodes_of_entry {n : Node} {m : Mapping} {e : Entry} (h : n.mapping? = some m)
    (isEntry : e ∈ m.entries) : Node.entry e ∈ n.nodes := by
  apply Node.nodes_subset (Node.mem_nodes_of_mapping h)
  exact Node.mem_nodes_of_child (List.mem_map_of_mem isEntry)

theorem Node.mem_nodes_of_value {e : Entry} {m : Node} (h : m ∈ e.value.toNode.nodes) :
    m ∈ (Node.entry e).nodes :=
  Node.nodes_subset (Node.mem_nodes_of_child (List.mem_cons_of_mem _ List.mem_cons_self)) h

theorem Node.mem_nodes_of_lookup {n n' : Node} {keys : List Text} (h : n.lookup keys = some n') :
    n' ∈ n.nodes := by
  induction keys generalizing n with
  | nil =>
    obtain rfl := Option.some.inj h
    exact n.mem_nodes
  | cons key keys ih =>
    obtain ⟨m, e, isMapping, found, below⟩ := Node.lookup_cons_eq_some h
    have isEntry := Node.mem_nodes_of_entry isMapping (List.mem_of_find?_eq_some found)
    exact Node.nodes_subset isEntry (Node.mem_nodes_of_value (ih below))

namespace Views

variable {vs vs' vs'' : Views} {i j k : Nat} {n m : Node}

/-- The view `j` on the node `n`, one of the views `vs'`, was reached from the view `i`,
one of `vs`. -/
structure Reaches (vs : Views) (i : Nat) (vs' : Views) (j : Nat) (n : Node) : Prop where
  within : vs.views <+: vs'.views
  node : vs'.node? j = some n
  chain : vs.ChainLive i → vs'.ChainLive j
  root : vs'.root j = vs.root i

theorem Reaches.refl (found : vs.node? i = some n) : Reaches vs i vs i n :=
  ⟨List.prefix_refl _, found, fun live => live, rfl⟩

theorem Reaches.trans (h : Reaches vs i vs' j n) (h' : Reaches vs' j vs'' k m) :
    Reaches vs i vs'' k m :=
  ⟨h.within.trans h'.within, h'.node, fun live => h'.chain (h.chain live), h'.root.trans h.root⟩

/-- More views do not break a link. -/
theorem LinkLive.add {view : View} (h : vs.LinkLive i j) : (vs.add view).2.LinkLive i j := by
  obtain ⟨c, p, found, above, isChild⟩ := h
  exact ⟨c, p, node?_add_of_eq_some found, node?_add_of_eq_some above, isChild⟩

/-- A view on a child, reached through the view on its parent. -/
theorem Reaches.child {c : Node} (found : vs.node? i = some n) (isChild : c ∈ n.children) :
    Reaches vs i (vs.addChild i c).2 (vs.addChild i c).1 c := by
  have below : (vs.addChild i c).2.ancestors (vs.addChild i c).1 = i :: vs.ancestors i :=
    ancestors_add_self vs _
  have above : (vs.addChild i c).2.ancestors i = vs.ancestors i :=
    ancestors_add (Option.isSome_of_eq_some found)
  refine ⟨List.prefix_append _ _, node?_addChild_self vs i c, ?_, ?_⟩
  · intro live
    have link : (vs.addChild i c).2.LinkLive (vs.addChild i c).1 i :=
      ⟨c, n, node?_addChild_self vs i c, node?_add_of_eq_some found, c, isChild, beq_self_eq_true _⟩
    rw [ChainLive, below]
    exact List.isChain_cons_cons.mpr ⟨link, live.imp fun a b h => h.add⟩
  · rw [root_of_cons (below.trans (congrArg (i :: ·) above.symm))]
    simp only [Views.root, above]

theorem Reaches.mappingView {d : Mapping} (h : vs.mapping? i = some d) :
    ∃ j vs', vs.mappingView i = (some (j, d), vs') ∧ Reaches vs i vs' j (.mapping d) := by
  rcases mappingView_of_some h with ⟨found, reached⟩ | ⟨n, found, isSlot, reached⟩
  · exact ⟨i, vs, reached, .refl found⟩
  · exact ⟨_, _, reached, .child found (Node.mem_children_of_slots isSlot)⟩

/-- The view on nothing is always there. -/
theorem node?_nothing (start : Views.new.views <+: vs.views) : vs.node? nothing = none := by
  obtain ⟨more, start⟩ := start
  rw [node?, ← start]
  rfl

/-- A key that is found leads to the value of its entry. -/
theorem Reaches.get {d : Mapping} {key : Text} {e : Entry} (isMapping : vs.mapping? i = some d)
    (isEntry : d.find? key = some e) :
    Reaches vs i (vs.get i key).2 (vs.get i key).1 e.value.toNode := by
  obtain ⟨j, vs', reached, onMapping⟩ := Reaches.mappingView isMapping
  rw [Views.get, reached]
  simp only [isEntry]
  have below : Node.entry e ∈ (Node.mapping d).children :=
    List.mem_map_of_mem (List.mem_of_find?_eq_some isEntry)
  have onEntry := Reaches.child onMapping.node below
  exact (onMapping.trans onEntry).trans
    (.child onEntry.node (List.mem_cons_of_mem _ List.mem_cons_self))

/-- A key that is not found leads to the view on nothing. -/
theorem get_of_none {key : Text} (h : (vs.mapping? i).bind (·.find? key) = none) :
    (vs.get i key).1 = nothing ∧ vs.views <+: (vs.get i key).2.views := by
  rw [Views.get]
  cases isMapping : vs.mapping? i with
  | none =>
    rw [mappingView_of_none isMapping]
    exact ⟨rfl, List.prefix_refl _⟩
  | some d =>
    rw [isMapping, Option.bind_some] at h
    obtain ⟨j, vs', reached, onMapping⟩ := Reaches.mappingView isMapping
    rw [reached]
    dsimp only
    rw [h]
    exact ⟨rfl, onMapping.within⟩

theorem getKeys_cons (vs : Views) (i : Nat) (key : Text) (keys : List Text) :
    vs.getKeys i (key :: keys) = (vs.get i key).2.getKeys (vs.get i key).1 keys := rfl

/-- The view reached by keys is on what they look up. -/
theorem Reaches.getKeys {keys : List Text} (found : vs.node? i = some n)
    (h : n.lookup keys = some m) : Reaches vs i (vs.getKeys i keys).2 (vs.getKeys i keys).1 m := by
  induction keys generalizing vs i n with
  | nil =>
    obtain rfl := Option.some.inj h
    exact .refl found
  | cons key keys ih =>
    obtain ⟨d, e, isMapping, isEntry, below⟩ := Node.lookup_cons_eq_some h
    rw [← Option.bind_some (f := Node.mapping?), ← found, ← mapping?_eq] at isMapping
    have onValue := Reaches.get isMapping isEntry
    exact onValue.trans (ih onValue.node below)

theorem getKeys_of_none {keys : List Text} (start : Views.new.views <+: vs.views)
    (h : vs.node? i = none) : (vs.getKeys i keys).2.node? (vs.getKeys i keys).1 = none := by
  induction keys generalizing vs i with
  | nil => exact h
  | cons key keys ih =>
    have away : (vs.mapping? i).bind (·.find? key) = none := by
      rw [mapping?_eq, h]
      rfl
    obtain ⟨isNothing, within⟩ := get_of_none away
    rw [getKeys_cons, isNothing]
    exact ih (start.trans within) (node?_nothing (start.trans within))

/-- Where keys look up nothing, the view is on nothing. -/
theorem getKeys_of_lookup_none {keys : List Text} (start : Views.new.views <+: vs.views)
    (found : vs.node? i = some n) (h : n.lookup keys = none) :
    (vs.getKeys i keys).2.node? (vs.getKeys i keys).1 = none := by
  induction keys generalizing vs i n with
  | nil => contradiction
  | cons key keys ih =>
    have mapping : vs.mapping? i = n.mapping? := by
      rw [mapping?_eq, found, Option.bind_some]
    cases isEntry : (vs.mapping? i).bind (·.find? key) with
    | none =>
      obtain ⟨isNothing, within⟩ := get_of_none isEntry
      rw [getKeys_cons, isNothing]
      exact getKeys_of_none (start.trans within) (node?_nothing (start.trans within))
    | some e =>
      obtain ⟨d, isMapping, isEntry⟩ := Option.bind_eq_some_iff.mp isEntry
      have onValue := Reaches.get isMapping isEntry
      rw [Node.lookup_cons (mapping.symm.trans isMapping) isEntry] at h
      exact ih (start.trans onValue.within) onValue.node h

end Views

/-- The first view on a document. -/
def Document.views (d : Document) : Views := (Views.new.addRoot (.document d)).2

theorem Document.node?_views (d : Document) : d.views.node? 1 = some (.document d) := rfl

theorem Document.textAt?_eq (d : Document) (path : Text) :
    d.textAt? path = ((Node.document d).lookup (Text.splitOn '.' path)).bind Node.text? := by
  have start : Views.new.views <+: d.views.views := List.prefix_append _ _
  have read : d.textAt? path = ((d.views.getKeys 1 (Text.splitOn '.' path)).2.node?
      (d.views.getKeys 1 (Text.splitOn '.' path)).1).bind Node.text? := by
    simp only [textAt?, Views.text?, Option.bind_eq_bind, Option.map_bind]
    rfl
  rw [read]
  cases h : (Node.document d).lookup (Text.splitOn '.' path) with
  | none => rw [Views.getKeys_of_lookup_none start d.node?_views h]
  | some n => rw [(Views.Reaches.getKeys d.node?_views h).node]

/-! ## Looking up keys in a rewritten tree -/

/-- Of two nodes below which the same node is, only one is a child. -/
theorem Node.child_unique {n c c' m : Node} (nodup : (n.nodes.map (·.id.place)).Nodup)
    (isChild : c ∈ n.children) (isChild' : c' ∈ n.children) (inside : m ∈ c.nodes)
    (inside' : m ∈ c'.nodes) : c = c' := by
  have nodes : n.nodes.Nodup := List.Nodup.of_map _ nodup
  rw [n.nodes_eq] at nodes
  have apart := (List.nodup_flatMap.mp (List.nodup_cons.mp nodes).2).2
  have symmetric : Std.Symm (Function.onFun List.Disjoint Node.nodes) :=
    ⟨fun _ _ h _ inside inside' => h inside' inside⟩
  by_contra differ
  exact apart.forall isChild isChild' differ inside inside'

/-- With an entry exchanged for one with the same key, the same entries are found but
for this one. -/
theorem find?_set {l : List Entry} {k : Nat} {e e' : Entry} (nodup : (l.map (·.id)).Nodup)
    (found : l[k]? = some e) (same : e'.key.text = e.key.text) (key : Text) :
    (l.find? (·.key.text = key) = some e → (l.set k e').find? (·.key.text = key) = some e') ∧
      (l.find? (·.key.text = key) ≠ some e →
        (l.set k e').find? (·.key.text = key) = l.find? (·.key.text = key)) := by
  induction l generalizing k with
  | nil => contradiction
  | cons x l ih =>
    obtain ⟨apart, nodup⟩ := List.nodup_cons.mp nodup
    cases k with
    | zero =>
      obtain rfl : x = e := Option.some.inj found
      rw [List.set_cons_zero]
      by_cases isKey : x.key.text = key
      · rw [List.find?_cons_of_pos (by simpa using isKey),
          List.find?_cons_of_pos (by simpa [same] using isKey)]
        exact ⟨fun _ => rfl, fun other => absurd rfl other⟩
      · rw [List.find?_cons_of_neg (by simpa using isKey),
          List.find?_cons_of_neg (by simpa [same] using isKey)]
        refine ⟨fun isFound => absurd ?_ isKey, fun _ => rfl⟩
        simpa using List.find?_some isFound
    | succ k =>
      have inside : e ∈ l := List.mem_of_getElem? found
      have other : x ≠ e := by
        rintro rfl
        exact apart (List.mem_map_of_mem inside)
      rw [List.set_cons_succ]
      by_cases isKey : x.key.text = key
      · rw [List.find?_cons_of_pos (by simpa using isKey),
          List.find?_cons_of_pos (by simpa using isKey)]
        exact ⟨fun isFound => absurd (Option.some.inj isFound) other, fun _ => rfl⟩
      · rw [List.find?_cons_of_neg (by simpa using isKey),
          List.find?_cons_of_neg (by simpa using isKey)]
        exact ih nodup found

namespace RewrittenAt

variable {revision : Nat} {t : Scalar} {text : Text} {path : List Nat} {n n' : Node}

/-- The scalar is below the child that is rewritten. -/
theorem child_of_mem {c : Node} (h : RewrittenAt revision t text path n n')
    (nodup : (n.nodes.map (·.id.place)).Nodup) (isChild : c ∈ n.children)
    (inside : .scalar t ∈ c.nodes) :
    ∃ (k : Nat) (path' : List Nat) (c' : Node), n.children[k]? = some c ∧
      RewrittenAt revision t text path' c c' ∧ n'.bare = n.bare ∧
      n'.children = n.children.set k c' := by
  cases h with
  | scalar changed => exact absurd isChild List.not_mem_nil
  | @child k path' _ _ c₀ c' found edit id bare children =>
    have below : .scalar t ∈ c₀.nodes := Node.mem_nodes_of_descendant edit.descendant?_path.2.1
    obtain rfl := Node.child_unique nodup isChild (List.mem_of_getElem? found) inside below
    exact ⟨k, path', c', found, edit, bare, children⟩

/-- An entry with the scalar in its value is rebuilt with another value. -/
theorem entry_of_value {e : Entry} (h : RewrittenAt revision t text path (.entry e) n')
    (nodup : ((Node.entry e).nodes.map (·.id.place)).Nodup)
    (inside : .scalar t ∈ e.value.toNode.nodes) :
    ∃ (id : NodeId) (value : Value) (path' : List Nat), n' = .entry { e with id, value } ∧
      RewrittenAt revision t text path' e.value.toNode value.toNode := by
  have isChild : e.value.toNode ∈ (Node.entry e).children :=
    List.mem_cons_of_mem _ List.mem_cons_self
  obtain ⟨e', rfl⟩ := h.entry
  obtain ⟨k, path', c', found, edit, bare, children⟩ := h.child_of_mem nodup isChild inside
  cases k with
  | zero =>
    -- The key is another child than the value.
    have nodes : (Node.entry e).children.Nodup :=
      (List.Nodup.of_map _ nodup).sublist (Node.entry e).children_sublist
    obtain same : Node.scalar e.key = e.value.toNode := Option.some.inj found
    rw [Node.children, same] at nodes
    exact absurd List.mem_cons_self (List.nodup_cons.mp nodes).1
  | succ k =>
    cases k with
    | succ k => contradiction
    | zero =>
      obtain ⟨key, value⟩ := List.cons.inj children
      obtain ⟨value, -⟩ := List.cons.inj value
      obtain ⟨id, lead, key', gap, value', comma⟩ := e'
      obtain rfl : key' = e.key := Node.scalar.inj key
      simp only [Node.bare, Node.entry.injEq, Entry.mk.injEq, true_and] at bare
      obtain ⟨rfl, rfl, rfl⟩ := bare
      exact ⟨id, value', path', rfl, value ▸ edit⟩

/-- Exactly one entry of a mapping is rewritten. -/
theorem mapping_of_entry {m : Mapping} {e : Entry}
    (h : RewrittenAt revision t text path (.mapping m) n')
    (nodup : ((Node.mapping m).nodes.map (·.id.place)).Nodup) (isEntry : e ∈ m.entries)
    (inside : .scalar t ∈ (Node.entry e).nodes) :
    ∃ (id : NodeId) (k : Nat) (e' : Entry) (path' : List Nat),
      n' = .mapping { m with id, entries := m.entries.set k e' } ∧ m.entries[k]? = some e ∧
      RewrittenAt revision t text path' (.entry e) (.entry e') := by
  have isChild : Node.entry e ∈ (Node.mapping m).children := List.mem_map_of_mem isEntry
  obtain ⟨k, path', c', found, edit, bare, children⟩ := h.child_of_mem nodup isChild inside
  obtain ⟨e', rfl⟩ := edit.entry
  cases n' with
  | mapping m' =>
    have injective : Function.Injective Node.entry := fun a b => Node.entry.inj
    rw [Node.children, Node.children, ← List.map_set] at children
    rw [Node.children, List.getElem?_map, Option.map_eq_some_iff] at found
    obtain ⟨x, found, same⟩ := found
    obtain rfl := Node.entry.inj same
    obtain ⟨id, style, entries⟩ := m'
    obtain rfl : entries = m.entries.set k e' := injective.list_map children
    obtain rfl : style = m.style := by simpa [Node.bare] using bare
    exact ⟨id, k, e', path', rfl, found, edit⟩
  | document | entry | sequence | item | scalar => simp [Node.bare] at bare

/-- A mapping with the scalar in the value of an entry is rebuilt with another value in that
entry. -/
theorem mapping_of_value {m : Mapping} {e : Entry}
    (h : RewrittenAt revision t text path (.mapping m) n')
    (nodup : ((Node.mapping m).nodes.map (·.id.place)).Nodup) (isEntry : e ∈ m.entries)
    (inside : .scalar t ∈ e.value.toNode.nodes) :
    ∃ (id id' : NodeId) (k : Nat) (value : Value) (path' : List Nat),
      n' = .mapping { m with id, entries := m.entries.set k { e with id := id', value } } ∧
      m.entries[k]? = some e ∧
      RewrittenAt revision t text path' e.value.toNode value.toNode := by
  obtain ⟨id, k, e', path', rfl, found, edit⟩ :=
    h.mapping_of_entry nodup isEntry (Node.mem_nodes_of_value inside)
  have below := Node.mem_nodes_of_child (n := .mapping m) (List.mem_map_of_mem isEntry)
  obtain ⟨id', value, path'', isRewritten, valueEdit⟩ :=
    edit.entry_of_value (nodup.sublist ((Node.nodes_sublist below).map _)) inside
  obtain rfl := Node.entry.inj isRewritten
  exact ⟨id, id', k, value, path'', rfl, found, valueEdit⟩

theorem document {d : Document} (h : RewrittenAt revision t text path (.document d) n') :
    ∃ (id : NodeId) (body : Value) (path' : List Nat), n' = .document { d with id, body } ∧
      RewrittenAt revision t text path' d.body.toNode body.toNode := by
  cases h with
  | @child k path' _ _ c c' found edit id bare children =>
    cases k with
    | succ k => contradiction
    | zero =>
      cases n' with
      | document d' =>
        obtain rfl : d.body.toNode = c := Option.some.inj found
        obtain ⟨body, -⟩ := List.cons.inj children
        obtain ⟨id', lead, explicitStart, body', tail, explicitEnd⟩ := d'
        simp only [Node.bare, Node.document.injEq, Document.mk.injEq, true_and] at bare
        obtain ⟨rfl, rfl, rfl, rfl⟩ := bare
        exact ⟨id', body', path', rfl, body ▸ edit⟩
      | mapping | entry | sequence | item | scalar => simp [Node.bare] at bare

/-- With a scalar rewritten in the value of an entry of a mapping, the same entries are found but for
this one. -/
theorem find?_of_entry {m : Mapping} {e : Entry}
    (h : RewrittenAt revision t text path (.mapping m) n')
    (nodup : ((Node.mapping m).nodes.map (·.id.place)).Nodup) (isEntry : e ∈ m.entries)
    (inside : .scalar t ∈ e.value.toNode.nodes) :
    ∃ (m' : Mapping) (e' : Entry) (path' : List Nat), n' = .mapping m' ∧
      RewrittenAt revision t text path' e.value.toNode e'.value.toNode ∧
      ∀ key, (m.find? key = some e → m'.find? key = some e') ∧
        (m.find? key ≠ some e → m'.find? key = m.find? key) := by
  obtain ⟨id, id', k, value, path', rfl, found, edit⟩ := h.mapping_of_value nodup isEntry inside
  have ids : (m.entries.map (·.id)).Nodup := by
    have children := nodup.sublist ((Node.mapping m).children_sublist.map _)
    rw [Node.children, List.map_map] at children
    exact List.Nodup.of_map NodeId.place (by rwa [List.map_map])
  exact ⟨_, { e with id := id', value }, path', rfl, edit, find?_set ids found rfl⟩

/-- The same of a node that is a mapping or has one as its body. -/
theorem find?_eq {m : Mapping} {e : Entry} (h : RewrittenAt revision t text path n n')
    (nodup : (n.nodes.map (·.id.place)).Nodup) (isMapping : n.mapping? = some m)
    (isEntry : e ∈ m.entries) (inside : .scalar t ∈ e.value.toNode.nodes) :
    ∃ (m' : Mapping) (e' : Entry) (path' : List Nat), n'.mapping? = some m' ∧
      RewrittenAt revision t text path' e.value.toNode e'.value.toNode ∧
      ∀ key, (m.find? key = some e → m'.find? key = some e') ∧
        (m.find? key ≠ some e → m'.find? key = m.find? key) := by
  have nodup' := nodup.sublist ((Node.nodes_sublist (Node.mem_nodes_of_mapping isMapping)).map _)
  rcases Node.mapping?_eq_some isMapping with rfl | ⟨d, rfl, body⟩
  · obtain ⟨m', e', path', rfl, edit, found⟩ := h.find?_of_entry nodup' isEntry inside
    exact ⟨m', e', path', rfl, edit, found⟩
  · obtain ⟨id, body', path', rfl, edit⟩ := h.document
    rw [body] at edit
    obtain ⟨m', e', path'', isBody, valueEdit, found⟩ := edit.find?_of_entry nodup' isEntry inside
    cases body' with
    | mapping =>
      obtain rfl := Node.mapping.inj isBody
      exact ⟨_, e', path'', rfl, valueEdit, found⟩
    | scalar | sequence => contradiction

/-- Where keys look up the scalar they read the new text, and all other keys read as before. -/
theorem text?_lookup {keys : List Text} (h : RewrittenAt revision t text path n n')
    (nodup : (n.nodes.map (·.id.place)).Nodup) (found : n.lookup keys = some (.scalar t))
    (others : List Text) :
    (n'.lookup others).bind Node.text? =
      if others = keys then some text else (n.lookup others).bind Node.text? := by
  induction keys generalizing n n' path others with
  | nil =>
    obtain rfl := Option.some.inj found
    cases h with
    | child found => contradiction
    | scalar changed =>
      cases others with
      | nil =>
        rw [if_pos rfl, Scalar.withText, if_neg changed]
        rfl
      | cons key others => exact (if_neg (List.cons_ne_nil key others)).symm
  | cons key keys ih =>
    obtain ⟨m, e, isMapping, isFound, below⟩ := Node.lookup_cons_eq_some found
    have isEntry := List.mem_of_find?_eq_some isFound
    obtain ⟨m', e', path', isMapping', edit, find⟩ :=
      h.find?_eq nodup isMapping isEntry (Node.mem_nodes_of_lookup below)
    cases others with
    | nil =>
      rw [if_neg (List.cons_ne_nil key keys).symm]
      exact (Node.text?_of_mapping isMapping').trans (Node.text?_of_mapping isMapping).symm
    | cons other others =>
      by_cases same : m.find? other = some e
      · have isKey : other = key := by
          have first := List.find?_some same
          have second := List.find?_some isFound
          simp only [decide_eq_true_eq] at first second
          exact first.symm.trans second
        subst isKey
        have inside := Node.mem_nodes_of_entry isMapping isEntry
        have value := Node.mem_nodes_of_value e.value.toNode.mem_nodes
        have within := (Node.nodes_sublist value).trans (Node.nodes_sublist inside)
        rw [Node.lookup_cons isMapping' ((find other).1 same), Node.lookup_cons isMapping same,
          ih edit (nodup.sublist (within.map _)) below others]
        simp only [List.cons.injEq, true_and]
      · have differs : other :: others ≠ key :: keys := by
          intro equal
          exact same ((List.cons.inj equal).1 ▸ isFound)
        rw [if_neg differs, Node.lookup, isMapping', Option.bind_some, (find other).2 same,
          Node.lookup,
          isMapping, Option.bind_some]

end RewrittenAt

/-! ## Documents -/

section Documents

variable {source : Text} {s : Stream} {d : Document} {path : Text}

theorem Document.textAt?_eq_some {text : Text} (h : d.textAt? path = some text) :
    ∃ t, (Node.document d).lookup (Text.splitOn '.' path) = some (.scalar t) ∧ t.text = text := by
  rw [textAt?_eq] at h
  obtain ⟨n, found, isText⟩ := Option.bind_eq_some_iff.mp h
  obtain ⟨t, isScalar, rfl⟩ := Option.map_eq_some_iff.mp isText
  obtain rfl := Node.asScalar_eq_some.mp isScalar
  exact ⟨t, found, rfl⟩

/-- Without a scalar at the path a document is not set. -/
theorem Document.setTextAt?_of_none (text : Text) (h : d.textAt? path = none) :
    d.setTextAt? path text = none := by
  have unset : ¬ (d.textAt? path).isSome := by
    rw [h]
    exact Bool.false_ne_true
  exact if_neg unset

/-- The views that setting goes through are on the nodes from the scalar up to the document. -/
theorem Document.setTextAt?_eq (parsed : parse source = .ok s) (isDocument : d ∈ s.documents)
    {t : Scalar} (found : (Node.document d).lookup (Text.splitOn '.' path) = some (.scalar t))
    (text : Text) :
    ∃ (vs : Views) (i : Nat), d.setTextAt? path text = (vs.setText i text).document? 1 ∧
      vs.Coherent s ∧ vs.node? i = some (.scalar t) ∧ vs.ChainLive i ∧ vs.root i = 1 ∧
      vs.node? 1 = some (.document d) := by
  have coherent : d.views.Coherent s :=
    (Views.coherent_new parsed).addRoot (.inl (Stream.mem_nodes_of_document isDocument))
  have isSet : d.setTextAt? path text = ((d.views.getKeys 1 (Text.splitOn '.' path)).2.setText
      (d.views.getKeys 1 (Text.splitOn '.' path)).1 text).document? 1 := by
    refine if_pos ?_
    have onText : (d.textAt? path).isSome := by
      rw [Document.textAt?_eq, found]
      rfl
    exact onText
  have coherent' := (Views.grows_getKeys _ 1 (Text.splitOn '.' path)).coherent coherent
  have reached := Views.Reaches.getKeys d.node?_views found
  refine ⟨_, _, isSet, coherent', reached.node, reached.chain (List.IsChain.singleton _),
    reached.root, ?_⟩
  obtain ⟨more, views⟩ := reached.within
  rw [Views.node?, ← views]
  rfl

/-- Setting another text rewrites the scalar in the document. -/
theorem Document.setTextAt?_rewrites (parsed : parse source = .ok s) (isDocument : d ∈ s.documents)
    {t : Scalar} (found : (Node.document d).lookup (Text.splitOn '.' path) = some (.scalar t))
    {text : Text} (changed : text ≠ t.text) :
    ∃ (d' : Document) (revision : Nat) (address : List Nat), d.setTextAt? path text = some d' ∧
      RewrittenAt revision t text address (.document d) (.document d') ∧ d'.id ≠ d.id := by
  obtain ⟨vs, i, isSet, coherent, onScalar, live, root, onRoot⟩ :=
    Document.setTextAt?_eq parsed isDocument found text
  obtain ⟨top, new, address, known, edit, outcome⟩ := coherent.setText_of_ne onScalar changed
  obtain ⟨isTop, moved⟩ := outcome.live live
  rw [← Views.root, root] at isTop moved
  obtain rfl := Option.some.inj (onRoot.symm.trans isTop)
  obtain ⟨id, body, path', rfl, -⟩ := edit.document
  refine ⟨_, vs.revision, address, ?_, edit, ?_⟩
  · rw [isSet, Views.document?, moved]
    rfl
  · have rebuilt : id = d.id.revised vs.revision := edit.id_eq
    rw [rebuilt]
    exact NodeId.revised_ne (Nat.ne_of_lt (coherent.older _ known))

/-- With a scalar at the path a document is set. -/
theorem Document.setTextAt?_of_some (parsed : parse source = .ok s) (isDocument : d ∈ s.documents)
    {old : Text} (text : Text) (h : d.textAt? path = some old) :
    ∃ d', d.setTextAt? path text = some d' ∧ (old = text → d' = d) ∧ (old ≠ text → d'.id ≠ d.id) ∧
      ∀ other, d'.textAt? other = if other = path then some text else d.textAt? other := by
  obtain ⟨t, found, rfl⟩ := Document.textAt?_eq_some h
  by_cases same : t.text = text
  · obtain ⟨vs, i, isSet, coherent, onScalar, -, -, onRoot⟩ :=
      Document.setTextAt?_eq parsed isDocument found text
    have unchanged : ∀ t', vs.node? i = some (.scalar t') → t'.text = text := by
      intro t' onScalar'
      obtain rfl := Node.scalar.inj (Option.some.inj (onScalar.symm.trans onScalar'))
      exact same
    refine ⟨d, ?_, fun _ => rfl, fun differ => absurd same differ, fun other => ?_⟩
    · rw [isSet, Views.document?, (coherent.setText_of_same unchanged 1).1, onRoot]
      rfl
    · by_cases isPath : other = path
      · rw [if_pos isPath, isPath, h, same]
      · rw [if_neg isPath]
  · obtain ⟨d', revision, address, isSet, edit, differs⟩ :=
      Document.setTextAt?_rewrites parsed isDocument found (Ne.symm same)
    refine ⟨d', isSet, fun equal => absurd equal same, fun _ => differs, fun other => ?_⟩
    have isNode := Stream.mem_nodes_of_document isDocument
    rw [Document.textAt?_eq, Document.textAt?_eq,
      edit.text?_lookup ((Views.coherent_new parsed).places _ (.inl isNode)) found]
    have injective : Text.splitOn '.' other = Text.splitOn '.' path ↔ other = path := by
      refine ⟨fun equal => ?_, fun equal => equal ▸ rfl⟩
      rw [← Text.joinWith_splitOn '.' other, equal, Text.joinWith_splitOn]
    simp only [injective]

theorem Document.setTextAt?_eq_none (parsed : parse source = .ok s) (isDocument : d ∈ s.documents)
    (text : Text) : d.setTextAt? path text = none ↔ d.textAt? path = none := by
  refine ⟨fun unset => ?_, Document.setTextAt?_of_none text⟩
  by_contra read
  obtain ⟨old, read⟩ := Option.ne_none_iff_exists'.mp read
  obtain ⟨d', isSet, -⟩ := Document.setTextAt?_of_some parsed isDocument text read
  rw [unset] at isSet
  contradiction

/-- What becomes of a document when the text at a path is set wherever it is found. -/
def Document.setIfFound (d : Document) (path text : Text) : Document :=
  (d.setTextAt? path text).getD d

theorem Document.setIfFound_of_same (parsed : parse source = .ok s) (isDocument : d ∈ s.documents)
    {text : Text} (same : d.textAt? path = none ∨ d.textAt? path = some text) :
    d.setIfFound path text = d := by
  rw [setIfFound]
  rcases same with read | read
  · rw [Document.setTextAt?_of_none text read, Option.getD_none]
  · obtain ⟨d', isSet, kept, -⟩ := Document.setTextAt?_of_some parsed isDocument text read
    rw [isSet, Option.getD_some, kept rfl]

/-- A document that keeps its identity is the document it was. -/
theorem Document.setIfFound_of_id (parsed : parse source = .ok s) (isDocument : d ∈ s.documents)
    {text : Text} (same : (d.setIfFound path text).id = d.id) : d.setIfFound path text = d := by
  cases read : d.textAt? path with
  | none => exact Document.setIfFound_of_same parsed isDocument (.inl read)
  | some old =>
    by_cases equal : old = text
    · exact Document.setIfFound_of_same parsed isDocument (.inr (equal ▸ read))
    · obtain ⟨d', isSet, -, changed, -⟩ := Document.setTextAt?_of_some parsed isDocument text read
      rw [setIfFound, isSet, Option.getD_some] at same
      exact absurd same (changed equal)

theorem Document.textAt?_setIfFound (parsed : parse source = .ok s) (isDocument : d ∈ s.documents)
    (text other : Text) : (d.setIfFound path text).textAt? other =
      if other = path ∧ (d.textAt? path).isSome then some text else d.textAt? other := by
  cases read : d.textAt? path with
  | none =>
    rw [Document.setIfFound_of_same parsed isDocument (.inl read),
      if_neg fun both => Bool.false_ne_true both.2]
  | some old =>
    obtain ⟨d', isSet, -, -, reads⟩ := Document.setTextAt?_of_some parsed isDocument text read
    rw [setIfFound, isSet, Option.getD_some, reads other]
    simp only [Option.isSome_some, and_true]

end Documents

section Streams

variable {source : Text} {s s' : Stream} {path text : Text}

theorem Stream.textAt?_eq_none : s.textAt? path = none ↔ ∀ d ∈ s.documents, d.textAt? path = none :=
  List.findSome?_eq_none_iff

theorem Stream.setTextAt?_eq_none (parsed : parse source = .ok s) :
    s.setTextAt? path text = none ↔ s.textAt? path = none := by
  have anySet : (s.documents.map (·.setTextAt? path text)).any Option.isSome = false ↔
      ∀ d ∈ s.documents, d.textAt? path = none := by
    rw [List.any_map, List.any_eq_false]
    refine forall_congr' fun d => imp_congr_right fun isDocument => ?_
    rw [Function.comp_apply, Bool.not_eq_true, Option.isSome_eq_false_iff,
      Option.isNone_iff_eq_none]
    exact Document.setTextAt?_eq_none parsed isDocument text
  rw [Stream.textAt?_eq_none, ← anySet, Stream.setTextAt?]
  simp only [ite_eq_right_iff, reduceCtorEq, imp_false, Bool.not_eq_true]

/-- The documents after setting, in order. -/
theorem Stream.documents_of_setTextAt? (parsed : parse source = .ok s)
    (h : s.setTextAt? path text = some s') :
    s'.documents = s.documents.map (·.setIfFound path text) := by
  have paired (ds : List Document) : ((ds.zip (ds.map (·.setTextAt? path text))).map
      fun both => both.2.getD both.1) = ds.map (·.setIfFound path text) := by
    induction ds with
    | nil => rfl
    | cons d ds ih => exact congrArg (d.setIfFound path text :: ·) ih
  rw [Stream.setTextAt?] at h
  obtain ⟨-, isSet⟩ := Option.ite_none_right_eq_some.mp h
  obtain rfl : s.withDocuments s.nextRevision ((s.documents.zip (s.documents.map
      (·.setTextAt? path text))).map fun both => both.2.getD both.1) = s' := Option.some.inj isSet
  rw [paired, Stream.withDocuments]
  split
  · rename_i same
    rw [List.map_map, List.map_inj_left] at same
    have kept : s.documents.map (·.setIfFound path text) = s.documents.map fun d => d := by
      apply List.map_congr_left
      intro d isDocument
      exact Document.setIfFound_of_id parsed isDocument (same d isDocument)
    rw [kept, List.map_id']
  · rfl

theorem Stream.textAt?_of_setTextAt? (parsed : parse source = .ok s)
    (h : s.setTextAt? path text = some s') : s'.textAt? path = some text := by
  have documents := Stream.documents_of_setTextAt? parsed h
  have reads : ∀ d ∈ s.documents,
      (d.setIfFound path text).textAt? path = none ∧ d.textAt? path = none ∨
      (d.setIfFound path text).textAt? path = some text := by
    intro d isDocument
    rw [Document.textAt?_setIfFound parsed isDocument]
    cases d.textAt? path with
    | none => exact .inl ⟨if_neg fun both => Bool.false_ne_true both.2, rfl⟩
    | some old => exact .inr (if_pos ⟨rfl, rfl⟩)
  cases read : s'.textAt? path with
  | none =>
    have found : s.textAt? path ≠ none := by
      intro unread
      rw [(Stream.setTextAt?_eq_none parsed).mpr unread] at h
      contradiction
    refine absurd (Stream.textAt?_eq_none.mpr fun d isDocument => ?_) found
    have unread := Stream.textAt?_eq_none.mp read (d.setIfFound path text)
      (documents ▸ List.mem_map_of_mem isDocument)
    rcases reads d isDocument with ⟨-, none⟩ | some
    · exact none
    · rw [unread] at some
      contradiction
  | some value =>
    obtain ⟨d', isDocument', found⟩ := List.exists_of_findSome?_eq_some read
    rw [documents, List.mem_map] at isDocument'
    obtain ⟨d, isDocument, rfl⟩ := isDocument'
    rcases reads d isDocument with ⟨none, -⟩ | some
    · rw [none] at found
      contradiction
    · exact found.symm.trans some

end Streams

/-- Reading and setting by dotted paths. Setting fails if there is nothing to read. Otherwise the
path then reads the new text, in every document that has a scalar there; every other path of
every document reads what it read; and a document in which there is nothing to change is the
document it was. -/
theorem reading_after_setting {source : Text} {s : Stream} (parsed : parse source = .ok s)
    (path text : Text) :
    (s.setTextAt? path text = none ↔ s.textAt? path = none) ∧
      ∀ s', s.setTextAt? path text = some s' →
        s'.documents.length = s.documents.length ∧ s'.textAt? path = some text ∧
          ∀ (i : Nat) (d : Document), s.documents[i]? = some d → ∃ d', s'.documents[i]? = some d' ∧
            (∀ other, d'.textAt? other =
              if other = path ∧ (d.textAt? path).isSome then some text else d.textAt? other) ∧
            (d.textAt? path = none ∨ d.textAt? path = some text → d' = d) := by
  refine ⟨Stream.setTextAt?_eq_none parsed, fun s' isSet => ?_⟩
  have documents := Stream.documents_of_setTextAt? parsed isSet
  refine ⟨?_, Stream.textAt?_of_setTextAt? parsed isSet, fun i d found => ?_⟩
  · rw [documents, List.length_map]
  · have isDocument := List.mem_of_getElem? found
    refine ⟨d.setIfFound path text, ?_, Document.textAt?_setIfFound parsed isDocument text,
      Document.setIfFound_of_same parsed isDocument⟩
    rw [documents, List.getElem?_map, found]
    rfl

def twoDocumentsText : Text := "a: {b: 1, b: 2}\n---\nc: 3\n".toList

theorem reading_after_setting_twoDocuments :
    ∃ s s', parse twoDocumentsText = .ok s ∧ s.setTextAt? "a.b".toList ['x'] = some s' ∧
      s'.textAt? "a.b".toList = some ['x'] ∧ s'.documents[1]? = s.documents[1]? := by
  obtain ⟨s, parsed, found, second⟩ : ∃ s, parse twoDocumentsText = .ok s ∧
      s.textAt? "a.b".toList ≠ none ∧
        (s.documents[1]?).map (·.textAt? "a.b".toList) = some none :=
    exists_parse (by decide +kernel)
  obtain ⟨d, isSecond, unread⟩ := Option.map_eq_some_iff.mp second
  obtain ⟨fails, succeeds⟩ := reading_after_setting parsed "a.b".toList ['x']
  obtain ⟨s', isSet⟩ := Option.ne_none_iff_exists'.mp (mt fails.mp found)
  obtain ⟨-, reads, documents⟩ := succeeds s' isSet
  obtain ⟨d', isSecond', -, kept⟩ := documents 1 d isSecond
  refine ⟨s, s', parsed, isSet, reads, ?_⟩
  rw [isSecond', kept (.inl unread), isSecond]

end ConfigTree.Yaml
