import ConfigTree.Proofs.Yaml.Marking
import ConfigTree.Proofs.Yaml.Places
import ConfigTree.Proofs.Yaml.Rebuilding
import Mathlib.Data.List.Forall2
import Mathlib.Data.List.Lex

/-!
# Addresses of scalars

The scalars of a tree in printing order are the scalars in the order of their addresses. The keys
around a scalar and the text in front of it are those that are met on the way along its address.
-/

namespace ConfigTree.Yaml

/-- The keys that a node puts around what is inside: an entry its own, any other none. -/
def Node.ownKeys : Node → List Text
  | .entry e => [e.key.text]
  | _ => []

/-- The keys of all entries on the way along an address, outermost first. -/
def Node.keysAt (n : Node) : List Nat → List Text
  | [] => n.ownKeys
  | i :: is => n.ownKeys ++ ((n.children[i]?).map (·.keysAt is)).getD []

/-- What a node prints in front of its child with the given index. -/
def Node.textInFront : Node → Nat → Text
  | .document d, _ => d.opening
  | .mapping m, i => m.style.opening '\x7b' ++ entriesPrint (m.entries.take i)
  | .entry e, 0 => e.lead
  | .entry e, _ => entryOpening e.lead e.key e.gap
  | .sequence s, i => s.style.opening '[' ++ itemsPrint (s.items.take i)
  | .item i, _ => itemOpening i.lead i.dash
  | .scalar _, _ => []

/-- What a node prints in front of the node at an address below it. -/
def Node.textBefore (n : Node) : List Nat → Text
  | [] => []
  | i :: is => n.textInFront i ++ ((n.children[i]?).map (·.textBefore is)).getD []

/-- The keys of all entries on the way along an address in a stream, outermost first. -/
def Stream.keysAt (s : Stream) : List Nat → List Text
  | [] => []
  | i :: is => ((s.documents[i]?).map fun d => (Node.document d).keysAt is).getD []

/-- What a stream prints in front of the node at an address. -/
def Stream.textBefore (s : Stream) : List Nat → Text
  | [] => []
  | i :: is =>
    Piece.print ((s.documents.take i).flatMap Document.pieces) ++
      ((s.documents[i]?).map fun d => (Node.document d).textBefore is).getD []

/-- The role of the child with the given index. -/
def Node.childRole : Node → Nat → Role
  | .document _, _ => .body
  | .entry _, 0 => .key
  | .item _, _ => .item
  | _, _ => .value

/-- The segments of a node that has the given role, inside the entries with the keys `path`. -/
def Node.segments (role : Role) (path : List Text) : Node → List Segment
  | .document d =>
    .chars d.opening :: (d.body.segments .body path ++
      [.chars (if d.explicitEnd then d.tail ++ ['.', '.', '.'] else d.tail)])
  | .mapping m => m.segments path
  | .entry e => e.segments path
  | .sequence s => s.segments path
  | .item i => i.segments path
  | .scalar s => [.scalar role path s]

@[simp] theorem Node.segments_scalar (role : Role) (path : List Text) (s : Scalar) :
    (Node.scalar s).segments role path = [.scalar role path s] := rfl

@[simp] theorem Node.segments_entry (role : Role) (path : List Text) (e : Entry) :
    (Node.entry e).segments role path = e.segments path := rfl

@[simp] theorem Node.segments_item (role : Role) (path : List Text) (i : Item) :
    (Node.item i).segments role path = i.segments path := rfl

@[simp] theorem Node.segments_toNode (role : Role) (path : List Text) (v : Value) :
    v.toNode.segments role path = v.segments role path := by
  cases v <;> simp [Value.toNode, Node.segments, Value.segments]

theorem sitesFrom_append (before : Text) (front back : List Segment) :
    sitesFrom before (front ++ back) =
      sitesFrom before front ++
        sitesFrom (before ++ Piece.print (front.flatMap Segment.pieces)) back := by
  induction front generalizing before with
  | nil => simp [sitesFrom]
  | cons segment front ih => cases segment <;> simp [sitesFrom, ih]

theorem sitesFrom_commaSegments (before : Text) (comma : Option Text) :
    sitesFrom before (commaSegments comma) = [] := by
  cases comma <;> rfl

theorem CollectionStyle.sitesFrom_segments (style : CollectionStyle) (opening closing : Char)
    (before : Text) (inner : List Segment) :
    sitesFrom before (style.segments opening closing inner) =
      sitesFrom (before ++ style.opening opening) inner := by
  cases style with
  | block => simp [CollectionStyle.segments, CollectionStyle.opening]
  | flow lead last =>
    simp [CollectionStyle.segments, CollectionStyle.opening, sitesFrom, sitesFrom_append]

theorem entriesPrint_eq (keys : List Text) (es : List Entry) :
    entriesPrint es = Piece.print (es.flatMap fun e => (e.segments keys).flatMap Segment.pieces) := by
  rw [entriesPrint, entriesPieces_eq keys, entriesSegments_eq, List.flatMap_assoc]

theorem itemsPrint_eq (keys : List Text) (is : List Item) :
    itemsPrint is = Piece.print (is.flatMap fun i => (i.segments keys).flatMap Segment.pieces) := by
  rw [itemsPrint, itemsPieces_eq keys, itemsSegments_eq, List.flatMap_assoc]

/-- The sites of parts that stand one after the other. -/
theorem sitesFrom_flatMap {α : Type} (segments : α → List Segment) (before : Text)
    (parts : List α) :
    sitesFrom before (parts.flatMap segments) =
      (List.range parts.length).flatMap fun i =>
        sitesFrom (before ++ Piece.print ((parts.take i).flatMap fun part =>
          (segments part).flatMap Segment.pieces)) ((parts[i]?).elim [] segments) := by
  induction parts generalizing before with
  | nil => rfl
  | cons part parts ih =>
    rw [List.flatMap_cons, sitesFrom_append, ih, List.length_cons, List.range_succ_eq_map,
      List.flatMap_cons, List.flatMap_map]
    simp

/-- The site of the scalar at an address below a node. In front of the node stands `before`, and
`keys` are the keys around it. -/
structure Node.SiteAt (n : Node) (keys : List Text) (before : Text) (address : List Nat)
    (site : Site) : Prop where
  scalar : n.descendant? address = some (.scalar site.scalar)
  keys_eq : site.keys = keys ++ n.keysAt address
  before_eq : site.before = before ++ n.textBefore address ++ site.scalar.lead

/-- The sites of the scalars at and below a node, in the order of their addresses. -/
def Node.SitesAt (n : Node) (keys : List Text) (before : Text) (sites : List Site) : Prop :=
  ∃ addresses : List (List Nat), addresses.Pairwise (· < ·) ∧
    (∀ a, a ∈ addresses ↔ ∃ t, n.descendant? a = some (.scalar t)) ∧
    List.Forall₂ (n.SiteAt keys before) addresses sites

/-- The same for nodes side by side, when `front i` stands in front of the one with index `i`. -/
def ForestSitesAt (ns : List Node) (keys : List Text) (front : Nat → Text) (sites : List Site) :
    Prop :=
  ∃ addresses : List (List Nat), addresses.Pairwise (· < ·) ∧
    (∀ a, a ∈ addresses ↔
      ∃ i b n t, a = i :: b ∧ ns[i]? = some n ∧ n.descendant? b = some (.scalar t)) ∧
    List.Forall₂ (fun a site => ∃ i b n, a = i :: b ∧ ns[i]? = some n ∧
      n.SiteAt keys (front i) b site) addresses sites

theorem forall₂_flatMap {α β γ : Type} {R : α → β → Prop} {f : γ → List α} {g : γ → List β}
    {l : List γ} (h : ∀ c ∈ l, List.Forall₂ R (f c) (g c)) :
    List.Forall₂ R (l.flatMap f) (l.flatMap g) := by
  induction l with
  | nil => exact .nil
  | cons c l ih =>
    obtain ⟨first, others⟩ := List.forall_mem_cons.mp h
    exact List.rel_append first (ih others)

/-- The addresses below nodes side by side are those below each of them, behind its index. -/
theorem forestSitesAt {ns : List Node} {keys : List Text} {front : Nat → Text}
    {found : Nat → List Site}
    (each : ∀ (i : Nat) (n : Node), ns[i]? = some n → n.SitesAt keys (front i) (found i)) :
    ForestSitesAt ns keys front ((List.range ns.length).flatMap found) := by
  have within (i : Nat) : ∃ addresses : List (List Nat), ∀ n, ns[i]? = some n →
      addresses.Pairwise (· < ·) ∧
        (∀ a, a ∈ addresses ↔ ∃ t, n.descendant? a = some (.scalar t)) ∧
        List.Forall₂ (n.SiteAt keys (front i)) addresses (found i) := by
    cases isNode : ns[i]? with
    | none => exact ⟨[], fun _ h => nomatch h⟩
    | some n =>
      obtain ⟨addresses, listed⟩ := each i n isNode
      exact ⟨addresses, fun m h => Option.some.inj h ▸ listed⟩
  choose addresses listed using within
  have isNode (i : Nat) (inside : i ∈ List.range ns.length) : ∃ n, ns[i]? = some n :=
    ⟨_, List.getElem?_eq_getElem (List.mem_range.mp inside)⟩
  refine ⟨(List.range ns.length).flatMap fun i => (addresses i).map (i :: ·), ?_, ?_, ?_⟩
  · refine List.pairwise_flatMap.mpr ⟨fun i inside => ?_, ?_⟩
    · obtain ⟨n, found⟩ := isNode i inside
      refine List.pairwise_map.mpr ((listed i n found).1.imp fun less => ?_)
      exact List.cons_lt_cons_self.mpr less
    · refine List.pairwise_lt_range.imp fun less a insideA b insideB => ?_
      obtain ⟨a', -, rfl⟩ := List.mem_map.mp insideA
      obtain ⟨b', -, rfl⟩ := List.mem_map.mp insideB
      exact List.Lex.rel less
  · intro a
    simp only [List.mem_flatMap, List.mem_map]
    constructor
    · rintro ⟨i, inside, b, isAddress, rfl⟩
      obtain ⟨n, found⟩ := isNode i inside
      obtain ⟨t, isScalar⟩ := ((listed i n found).2.1 b).mp isAddress
      exact ⟨i, b, n, t, rfl, found, isScalar⟩
    · rintro ⟨i, b, n, t, rfl, found, isScalar⟩
      obtain ⟨below, -⟩ := List.getElem?_eq_some_iff.mp found
      exact ⟨i, List.mem_range.mpr below, b, ((listed i n found).2.1 b).mpr ⟨t, isScalar⟩, rfl⟩
  · refine forall₂_flatMap fun i inside => ?_
    obtain ⟨n, found⟩ := isNode i inside
    refine List.forall₂_map_left_iff.mpr ((listed i n found).2.2.imp fun b site atSite => ?_)
    exact ⟨i, b, n, rfl, found, atSite⟩

/-- What is below a node that is no scalar is below its children. -/
theorem Node.sitesAt_of_children {n : Node} {keys : List Text} {before : Text} {sites : List Site}
    (notScalar : n.asScalar = none)
    (h : ForestSitesAt n.children (keys ++ n.ownKeys) (fun i => before ++ n.textInFront i) sites) :
    n.SitesAt keys before sites := by
  obtain ⟨addresses, ascending, listed, found⟩ := h
  refine ⟨addresses, ascending, fun a => ?_, found.imp fun a site => ?_⟩
  · rw [listed]
    cases a with
    | nil =>
      refine iff_of_false (by simp) ?_
      rintro ⟨t, same⟩
      rw [Option.some.inj same] at notScalar
      contradiction
    | cons i b =>
      simp only [Node.descendant?, Option.bind_eq_bind, Option.bind_eq_some_iff]
      constructor
      · rintro ⟨j, b', c, t, same, isChild, isScalar⟩
        obtain ⟨rfl, rfl⟩ := List.cons.inj same
        exact ⟨t, c, isChild, isScalar⟩
      · rintro ⟨t, c, isChild, isScalar⟩
        exact ⟨i, b, c, t, rfl, isChild, isScalar⟩
  · rintro ⟨i, b, c, rfl, isChild, atSite⟩
    refine ⟨?_, ?_, ?_⟩
    · simp [Node.descendant?, isChild, atSite.scalar]
    · simp [Node.keysAt, isChild, atSite.keys_eq]
    · simp [Node.textBefore, isChild, atSite.before_eq]

/-- The sites of a node are those of its children, one child after the other. -/
theorem Node.sitesFrom_segments {n : Node} (notScalar : n.asScalar = none) (role : Role)
    (keys : List Text) (before : Text) :
    sitesFrom before (n.segments role keys) =
      (List.range n.children.length).flatMap fun i => sitesFrom (before ++ n.textInFront i)
        ((n.children[i]?).elim [] (Node.segments (n.childRole i) (keys ++ n.ownKeys))) := by
  cases n with
  | scalar s => contradiction
  | document d =>
    rw [Node.segments]
    simp [Node.children, Node.ownKeys, Node.textInFront, Node.childRole, sitesFrom, sitesFrom_append]
  | entry e =>
    obtain ⟨id, lead, key, gap, value, comma⟩ := e
    simp [Entry.segments, Node.children, Node.ownKeys, Node.textInFront, Node.childRole, sitesFrom,
      sitesFrom_append, sitesFrom_commaSegments, entryOpening, List.range_succ_eq_map]
  | item i =>
    obtain ⟨id, lead, dash, value, comma⟩ := i
    simp [Item.segments, Node.children, Node.ownKeys, Node.textInFront, Node.childRole, sitesFrom,
      sitesFrom_append, sitesFrom_commaSegments, itemOpening]
  | mapping m =>
    obtain ⟨id, style, es⟩ := m
    have parts (t : Text) := sitesFrom_flatMap (Entry.segments keys) t es
    rw [Node.segments, Mapping.segments, CollectionStyle.sitesFrom_segments, entriesSegments_eq,
      parts]
    have entries (role : Role) : Node.segments role keys ∘ Node.entry = Entry.segments keys := rfl
    simp [Node.children, Node.ownKeys, Node.textInFront, entriesPrint_eq keys, entries]
  | sequence s =>
    obtain ⟨id, style, is⟩ := s
    have parts (t : Text) := sitesFrom_flatMap (Item.segments keys) t is
    rw [Node.segments, Sequence.segments, CollectionStyle.sitesFrom_segments, itemsSegments_eq,
      parts]
    have items (role : Role) : Node.segments role keys ∘ Node.item = Item.segments keys := rfl
    simp [Node.children, Node.ownKeys, Node.textInFront, itemsPrint_eq keys, items]

/-- The sites of a node are those of the scalars at and below it. -/
theorem Node.sitesAt (n : Node) (role : Role) (keys : List Text) (before : Text) :
    n.SitesAt keys before (sitesFrom before (n.segments role keys)) := by
  induction n using Node.induction generalizing role keys before with
  | step n ih =>
    cases isScalar : n.asScalar with
    | some s =>
      obtain rfl := Node.asScalar_eq_some.mp isScalar
      refine ⟨[[]], List.pairwise_singleton _ _, fun a => ?_, .cons ?_ .nil⟩
      · cases a <;> simp [Node.descendant?, Node.children]
      · exact ⟨rfl, by simp [Node.keysAt, Node.ownKeys], by simp [Node.textBefore]⟩
    | none =>
      rw [Node.sitesFrom_segments isScalar]
      refine Node.sitesAt_of_children isScalar (forestSitesAt fun i c isChild => ?_)
      rw [isChild]
      exact ih c (List.mem_of_getElem? isChild) _ _ _

/-- The site of the scalar at an address in a stream. -/
structure Stream.SiteAt (s : Stream) (address : List Nat) (site : Site) : Prop where
  scalar : s.nodeAt? address = some (.scalar site.scalar)
  keys_eq : site.keys = s.keysAt address
  before_eq : site.before = s.textBefore address ++ site.scalar.lead

theorem Stream.sites_eq_flatMap (s : Stream) :
    s.sites = (List.range s.documents.length).flatMap fun i =>
      sitesFrom (Piece.print ((s.documents.take i).flatMap Document.pieces))
        ((s.documents[i]?).elim [] Document.segments) := by
  have pieces : (fun d : Document => d.segments.flatMap Segment.pieces) = Document.pieces :=
    funext fun d => d.pieces_eq.symm
  rw [Stream.sites, Stream.segments, sitesFrom_append, sitesFrom_flatMap, pieces]
  simp [sitesFrom]

/-- The sites of a stream are those of the scalars in it, in the order of their addresses. -/
theorem Stream.exists_addresses (s : Stream) :
    ∃ addresses : List (List Nat), addresses.Pairwise (· < ·) ∧
      (∀ a, a ∈ addresses ↔ ∃ t, s.nodeAt? a = some (.scalar t)) ∧
      List.Forall₂ s.SiteAt addresses s.sites := by
  have each (i : Nat) (n : Node) (isNode : (s.documents.map Node.document)[i]? = some n) :
      n.SitesAt [] (Piece.print ((s.documents.take i).flatMap Document.pieces))
        (sitesFrom (Piece.print ((s.documents.take i).flatMap Document.pieces))
          ((s.documents[i]?).elim [] Document.segments)) := by
    rw [List.getElem?_map] at isNode
    obtain ⟨d, isDocument, rfl⟩ := Option.map_eq_some_iff.mp isNode
    rw [isDocument]
    exact (Node.document d).sitesAt .body [] _
  obtain ⟨addresses, ascending, listed, found⟩ := forestSitesAt each
  rw [List.length_map, ← s.sites_eq_flatMap] at found
  refine ⟨addresses, ascending, fun a => ?_, found.imp fun a site => ?_⟩
  · rw [listed]
    cases a with
    | nil => simp [Stream.nodeAt?]
    | cons i b =>
      simp only [Stream.nodeAt?, Option.bind_eq_bind, Option.bind_eq_some_iff, List.getElem?_map,
        Option.map_eq_some_iff]
      constructor
      · rintro ⟨j, b', n, t, same, ⟨d, isDocument, rfl⟩, isScalar⟩
        obtain ⟨rfl, rfl⟩ := List.cons.inj same
        exact ⟨t, d, isDocument, isScalar⟩
      · rintro ⟨t, d, isDocument, isScalar⟩
        exact ⟨i, b, _, t, rfl, ⟨d, isDocument, rfl⟩, isScalar⟩
  · rintro ⟨i, b, n, rfl, isNode, atSite⟩
    rw [List.getElem?_map] at isNode
    obtain ⟨d, isDocument, rfl⟩ := Option.map_eq_some_iff.mp isNode
    refine ⟨?_, ?_, ?_⟩
    · simp [Stream.nodeAt?, isDocument, atSite.scalar]
    · simp [Stream.keysAt, isDocument, atSite.keys_eq]
    · simp [Stream.textBefore, isDocument, atSite.before_eq]

end ConfigTree.Yaml
