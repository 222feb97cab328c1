import ConfigTree.Proofs.Yaml.Addresses
import ConfigTree.Proofs.Yaml.Views

/-!
# Forms of trees

The form of a tree is what is left of it when the texts of its values and its revisions are
forgotten: which kinds of nodes stand where, and under which keys. Exchanging a child for another of
its form keeps the form of the parent, unless the child is a key.
-/

namespace ConfigTree.Yaml

/-- What a node is, whatever the values below it read. -/
structure Form where
  place : Nat
  kind : String
  /-- The keys that the node puts around what is inside. -/
  keys : List Text

theorem Value.ownKeys_toNode (v : Value) : v.toNode.ownKeys = [] := by
  cases v <;> rfl

namespace Node

def form (n : Node) : Form := ⟨n.id.place, n.kind, n.ownKeys⟩

/-- The forms of a node and of the nodes below it, at their addresses. -/
def forms (n : Node) (address : List Nat) : Option Form := (n.descendant? address).map form

theorem ownKeys_eq_toList (n : Node) : n.ownKeys = (n.asEntry.map (·.key.text)).toList := by
  cases n <;> rfl

theorem kind_bare (n : Node) : n.bare.kind = n.kind := by
  cases n <;> rfl

theorem kind_eq_mapping {n : Node} : n.kind = "mapping" ↔ ∃ m, n = .mapping m := by
  cases n <;> simp [kind]

theorem kind_eq_entry {n : Node} : n.kind = "mapping entry" ↔ ∃ e, n = .entry e := by
  cases n <;> simp [kind]

theorem kind_eq_document {n : Node} : n.kind = "document" ↔ ∃ d, n = .document d := by
  cases n <;> simp [kind]

section

variable {n n' : Node}

theorem forms_cons (n : Node) (k : Nat) (address : List Nat) :
    n.forms (k :: address) = (n.children[k]?).bind (·.forms address) := by
  rw [forms, descendant?]
  cases n.children[k]? <;> rfl

theorem form_of_forms (h : n'.forms = n.forms) : n'.form = n.form :=
  Option.some.inj (congrFun h [])

theorem kind_of_forms (h : n'.forms = n.forms) : n'.kind = n.kind :=
  congrArg Form.kind (form_of_forms h)

theorem ownKeys_of_forms (h : n'.forms = n.forms) : n'.ownKeys = n.ownKeys :=
  congrArg Form.keys (form_of_forms h)

theorem place_of_forms (h : n'.forms = n.forms) : n'.id.place = n.id.place :=
  congrArg Form.place (form_of_forms h)

theorem children_of_forms (h : n'.forms = n.forms) (k : Nat) :
    (n'.children[k]?).map forms = (n.children[k]?).map forms := by
  have below (address : List Nat) := congrFun h (k :: address)
  simp only [forms_cons] at below
  cases found : n.children[k]? with
  | none =>
    cases found' : n'.children[k]? with
    | none => rfl
    | some c' => simpa [found, found', forms, descendant?] using below []
  | some c =>
    cases found' : n'.children[k]? with
    | none => simpa [found, found', forms, descendant?] using below []
    | some c' =>
      simp only [found, found', Option.bind_some] at below
      exact congrArg some (funext below)

theorem forms_of_children (form : n'.form = n.form)
    (children : ∀ k : Nat, (n'.children[k]?).map forms = (n.children[k]?).map forms) :
    n'.forms = n.forms := by
  funext address
  cases address with
  | nil => exact congrArg some form
  | cons k address =>
    have below := congrArg (Option.bind · fun forms => forms address) (children k)
    simpa only [forms_cons, Option.bind_map, Function.comp_def] using below

end

/-- The number of entries with a mapping as their value. -/
def size (n : Node) : Nat := (n.mapping?.map fun m => m.entries.countP (·.value.isMapping)).getD 0

theorem isMapping_eq (v : Value) : v.isMapping = decide (v.toNode.form.kind = "mapping") := by
  cases v <;> simp [Value.isMapping, Value.asMapping, Value.toNode, form, kind]

theorem size_mapping_of_forms {m m' : Mapping} (h : (mapping m').forms = (mapping m).forms) :
    (mapping m').size = (mapping m).size := by
  have value (o : Mapping) (j : Nat) : (o.entries.map (·.value.isMapping))[j]? =
      ((mapping o).forms [j, 1]).map fun form => decide (form.kind = "mapping") := by
    rw [forms_cons, children, List.getElem?_map, List.getElem?_map]
    cases o.entries[j]? with
    | none => rfl
    | some e => exact congrArg some (isMapping_eq e.value)
  have same : m'.entries.map (·.value.isMapping) = m.entries.map (·.value.isMapping) := by
    apply List.ext_getElem?
    intro j
    rw [value, value, h]
  have count (o : Mapping) :
      (mapping o).size = (o.entries.map (·.value.isMapping)).countP fun b => b := by
    rw [List.countP_map]
    rfl
  rw [count, count, same]

theorem size_toNode_of_forms {v v' : Value} (h : v'.toNode.forms = v.toNode.forms) :
    v'.toNode.size = v.toNode.size := by
  have kind := kind_of_forms h
  cases v with
  | mapping m =>
    obtain ⟨m', same⟩ := kind_eq_mapping.mp kind
    rw [same] at h ⊢
    exact size_mapping_of_forms h
  | scalar | sequence => cases v' <;> simp_all [size, mapping?, Node.kind, Value.toNode]

/-- Nodes of one form have as many entries with a mapping as their value. -/
theorem size_of_forms {n n' : Node} (h : n'.forms = n.forms) : n'.size = n.size := by
  have kind := kind_of_forms h
  cases n with
  | mapping m =>
    obtain ⟨m', rfl⟩ := kind_eq_mapping.mp kind
    exact size_mapping_of_forms h
  | document d =>
    obtain ⟨d', rfl⟩ := kind_eq_document.mp kind
    have ofBody (d : Document) : (document d).size = d.body.toNode.size := by
      rw [size, size, mapping?]
      cases d.body <;> rfl
    rw [ofBody, ofBody]
    exact size_toNode_of_forms (Option.some.inj (children_of_forms h 0))
  | entry | sequence | item | scalar => cases n' <;> simp_all [size, mapping?, Node.kind]

/-- A child that is no key is exchanged for one of the same form. -/
theorem RebuiltWith.forms_eq {revision k : Nat} {n n' before after : Node}
    (h : n.RebuiltWith revision k after n') (found : n.children[k]? = some before)
    (alike : after.forms = before.forms) (notKey : ∀ e, n = .entry e → k ≠ 0) :
    n'.forms = n.forms := by
  have kind : n'.kind = n.kind := by
    rw [← kind_bare, h.bare, kind_bare]
  have keys : n'.ownKeys = n.ownKeys := by
    have bare := h.bare
    cases n with
    | entry e =>
      cases n' with
      | entry e' =>
        have children := h.children
        cases k with
        | zero => exact absurd rfl (notKey e rfl)
        | succ k =>
          have key : Node.scalar e'.key = .scalar e.key := (List.cons.inj children).1
          rw [ownKeys, ownKeys, Node.scalar.inj key]
      | document | mapping | sequence | item | scalar => simp [Node.bare] at bare
    | document | mapping | sequence | item | scalar =>
      cases n' with
      | entry e' => simp [Node.bare] at bare
      | document | mapping | sequence | item | scalar => rfl
  refine forms_of_children ?_ fun j => ?_
  · rw [form, h.id, NodeId.place_revised, kind, keys]
    rfl
  · rw [h.children, List.getElem?_set]
    have inside := (List.getElem?_eq_some_iff.mp found).1
    by_cases same : k = j
    · subst same
      rw [if_pos rfl, if_pos inside, found, Option.map_some, Option.map_some, alike]
    · rw [if_neg same]

/-- Putting a node of one form with a child, other than a key, in its place keeps the form of
the parent. -/
theorem forms_substitute {revision : Nat} {parent before after : Node}
    (nodup : (parent.children.map Node.id).Nodup)
    (known : ∀ child ∈ parent.children, child.id = before.id → child = before)
    (notKey : ∀ e, parent = .entry e → before.id ≠ e.key.id) (alike : after.forms = before.forms) :
    (parent.substitute revision before after).forms = parent.forms := by
  by_cases exchanged : ∃ place ∈ parent.slots, Exchanges before after place
  · obtain ⟨place, isSlot, exchanges⟩ := exchanged
    obtain ⟨k, found⟩ := List.mem_iff_getElem?.mp isSlot
    have isChild : parent.children[k]? = some before := by
      rw [parent.children_eq, List.getElem?_map, found]
      exact congrArg some (known _ (mem_children_of_slots isSlot) exchanges.id)
    refine (substitute_of_exchanges nodup found exchanges).forms_eq isChild alike ?_
    rintro e rfl rfl
    exact notKey e rfl (congrArg id (Option.some.inj isChild)).symm
  · rw [substitute_of_not_exchanges fun place isSlot exchanges =>
      exchanged ⟨place, isSlot, exchanges⟩]

theorem forms_withText (revision : Nat) (s : Scalar) (text : Text) :
    (scalar (s.withText revision text)).forms = (scalar s).forms := by
  refine forms_of_children ?_ fun _ => rfl
  rw [Scalar.withText]
  split <;> rfl

end Node

end ConfigTree.Yaml
