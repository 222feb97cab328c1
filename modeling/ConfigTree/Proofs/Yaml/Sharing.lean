import ConfigTree.Proofs.Yaml.ScalarChanges
import ConfigTree.Source

/-!
# Sharing between a tree and the tree after a visit

A visitor that changes scalars meets every scalar once, in printing order. Each node of the tree
that it makes stands where a node of the visited tree stood. A node below which no scalar has become
another one is the node it was, and every other node is rebuilt around what has come of its
children.
-/

namespace ConfigTree

namespace Yaml

namespace Node

variable {f : Scalar → Scalar} {revision : Nat}

theorem mem_nodes_iff {n m : Node} :
    m ∈ n.nodes ↔ m = n ∨ ∃ place ∈ n.slots, m ∈ place.2.nodes := by
  rw [n.nodes_eq, List.mem_cons, n.children_eq, List.flatMap_map, List.mem_flatMap]

theorem filterMap_asScalar_nodes {n : Node} (notScalar : n.asScalar = none) :
    n.nodes.filterMap asScalar = n.slots.flatMap fun place => place.2.nodes.filterMap asScalar := by
  rw [n.nodes_eq, List.filterMap_cons, notScalar, n.children_eq, List.flatMap_map,
    List.filterMap_flatMap]

/-- A node stays the node it is if and only if all scalars at and below it do. -/
theorem visit_eq_self_iff {n : Node} (shows : n.Shows revision fun _ _ => f) (path : List Text) :
    n.visit (.onScalars f) revision path = n ↔ ∀ t, .scalar t ∈ n.nodes → f t = t := by
  refine ⟨fun kept t inside => ?_, fun kept => visit_of_fixed path kept⟩
  induction n using Node.induction generalizing path with
  | step n ih =>
    cases isScalar : n.asScalar with
    | some s =>
      obtain rfl := asScalar_eq_some.mp isScalar
      obtain rfl := scalar.inj (List.mem_singleton.mp inside)
      exact scalar.inj kept
    | none =>
      have below := ((changesScalars_visit f revision).eq_iff shows .body path isScalar).1.mp kept
      rcases mem_nodes_iff.mp inside with rfl | ⟨place, isSlot, inside⟩
      · contradiction
      · exact ih place.2 (mem_children_of_slots isSlot) (shows.of_slot isSlot) _
          (below place isSlot) inside

/-- At each address stands what comes of the node that stood there. -/
theorem descendant?_visit {n : Node} (shows : n.Shows revision fun _ _ => f) (path : List Text)
    (address : List Nat) :
    ∃ keys, (n.visit (.onScalars f) revision path).descendant? address =
      (n.descendant? address).map (·.visit (.onScalars f) revision keys) := by
  induction address generalizing n path with
  | nil => exact ⟨path, rfl⟩
  | cons i address ih =>
    cases isScalar : n.asScalar with
    | some s =>
      obtain rfl := asScalar_eq_some.mp isScalar
      exact ⟨path, by simp [visit, Visitor.onScalars, descendant?, children]⟩
    | none =>
      have children := (changesScalars_visit f revision).children_eq shows .body path isScalar
      rw [descendant?, descendant?, children, n.children_eq, List.getElem?_map, List.getElem?_map]
      cases found : n.slots[i]? with
      | none => exact ⟨path, rfl⟩
      | some place => exact ih (shows.of_slot (List.mem_of_getElem? found)) (path ++ n.ownKeys)

/-- The scalars of a visited tree are what comes of those before. -/
theorem asScalar_nodes_visit {n : Node} (shows : n.Shows revision fun _ _ => f)
    (path : List Text) :
    (n.visit (.onScalars f) revision path).nodes.filterMap asScalar =
      (n.nodes.filterMap asScalar).map f := by
  induction n using Node.induction generalizing path with
  | step n ih =>
    have changes := changesScalars_visit f revision
    cases isScalar : n.asScalar with
    | some s =>
      obtain rfl := asScalar_eq_some.mp isScalar
      rfl
    | none =>
      rw [filterMap_asScalar_nodes isScalar,
        filterMap_asScalar_nodes (changes.asScalar_eq_none .body path isScalar),
        changes.slots_eq shows .body path isScalar, List.flatMap_map, List.map_flatMap]
      refine List.flatMap_congr fun place isSlot => ?_
      exact ih place.2 (mem_children_of_slots isSlot) (shows.of_slot isSlot) _

end Node

section Streams

variable {f : Scalar → Scalar} {s : Stream}

theorem Document.visit_eq_of_id {revision : Nat} {d : Document}
    (shows : (Node.document d).Shows revision fun _ _ => f)
    (same : (d.visit (.onScalars f) revision).id = d.id) : d.visit (.onScalars f) revision = d := by
  have kept := (Node.changesScalars_visit f revision).eq_of_id shows .body []
  rw [← Document.visit_onScalars] at kept
  exact Node.document.inj (kept same)

theorem Stream.documents_visit (shows : ∀ n ∈ s.nodes, n.Shows s.nextRevision fun _ _ => f) :
    (s.visit (.onScalars f)).documents =
      s.documents.map (Document.visit (.onScalars f) s.nextRevision) :=
  Stream.documents_withDocuments_map fun _ isDocument same =>
    Document.visit_eq_of_id (shows _ (Stream.mem_nodes_of_document isDocument)) same

/-- At each address stands what comes of the node that stood there. -/
theorem Stream.nodeAt?_visit (shows : ∀ n ∈ s.nodes, n.Shows s.nextRevision fun _ _ => f)
    (address : List Nat) :
    ∃ keys, (s.visit (.onScalars f)).nodeAt? address =
      (s.nodeAt? address).map (·.visit (.onScalars f) s.nextRevision keys) := by
  cases address with
  | nil => exact ⟨[], rfl⟩
  | cons i address =>
    rw [Stream.nodeAt?, Stream.nodeAt?, Stream.documents_visit shows, List.getElem?_map]
    cases found : s.documents[i]? with
    | none => exact ⟨[], rfl⟩
    | some d =>
      have isNode := Stream.mem_nodes_of_document (List.mem_of_getElem? found)
      obtain ⟨keys, below⟩ := Node.descendant?_visit (shows _ isNode) [] address
      rw [← Document.visit_onScalars] at below
      exact ⟨keys, below⟩

/-- A stream stays the stream it is if all its scalars do. Else it is another one. -/
theorem Stream.visit_kept_or_renewed
    (shows : ∀ n ∈ s.nodes, n.Shows s.nextRevision fun _ _ => f) :
    ((∀ t, .scalar t ∈ s.nodes → f t = t) ∧ s.visit (.onScalars f) = s) ∨
    ((¬ ∀ t, .scalar t ∈ s.nodes → f t = t) ∧ (s.visit (.onScalars f)).id ≠ s.id) := by
  have kept : (∀ d ∈ s.documents, d.visit (.onScalars f) s.nextRevision = d) ↔
      ∀ t, .scalar t ∈ s.nodes → f t = t := by
    have each : ∀ d ∈ s.documents, d.visit (.onScalars f) s.nextRevision = d ↔
        ∀ t, .scalar t ∈ d.nodes → f t = t := by
      intro d isDocument
      rw [← Node.document.injEq, Document.visit_onScalars,
        Node.visit_eq_self_iff (shows _ (Stream.mem_nodes_of_document isDocument))]
      rfl
    rw [forall₂_congr each]
    constructor
    · intro below t inside
      obtain ⟨d, isDocument, inside⟩ := List.mem_flatMap.mp inside
      exact below d isDocument t inside
    · intro below d isDocument t inside
      exact below t (List.mem_flatMap_of_mem isDocument inside)
  have rebuilt := Stream.withDocuments_map s.nextRevision
    fun d isDocument => Document.visit_eq_of_id (shows _ (Stream.mem_nodes_of_document isDocument))
  rw [kept] at rebuilt
  refine rebuilt.imp_right fun changed => ⟨changed.1, ?_⟩
  rw [Stream.visit, changed.2]
  exact NodeId.revised_ne (Nat.ne_of_lt (Nat.lt_succ_self _))

/-- The scalars of a visited stream are what comes of those before. -/
theorem Stream.asScalar_nodes_visit
    (shows : ∀ n ∈ s.nodes, n.Shows s.nextRevision fun _ _ => f) :
    (s.visit (.onScalars f)).nodes.filterMap Node.asScalar =
      (s.nodes.filterMap Node.asScalar).map f := by
  rw [Stream.nodes, Stream.documents_visit shows, Stream.nodes, List.flatMap_map,
    List.filterMap_flatMap, List.filterMap_flatMap, List.map_flatMap]
  refine List.flatMap_congr fun d isDocument => ?_
  have scalars := Node.asScalar_nodes_visit (shows _ (Stream.mem_nodes_of_document isDocument)) []
  rw [← Document.visit_onScalars] at scalars
  exact scalars

end Streams

/-! ## What a walk meets -/

section Recording

variable {f : Scalar → Scalar} {revision : Nat}

/-- One computation after the other, each of which records something. -/
theorem run_mapM_recording {α β : Type} {act : α → StateM (List Scalar) β} {result : α → β}
    {met : α → List Scalar} {l : List α}
    (each : ∀ a ∈ l, ∀ seen, (act a).run seen = pure (result a, seen ++ met a))
    (seen : List Scalar) :
    (l.mapM act).run seen = pure (l.map result, seen ++ l.flatMap met) := by
  have run : (l.mapM act).run (seen ++ [].flatMap met) =
      pure (l.map result, seen ++ l.flatMap met) :=
    run_mapM (fun front => seen ++ front.flatMap met) fun a isIn front => by simp [each a isIn]
  simpa using run

/-- A walk makes the tree that a visit makes, and meets every scalar once, in printing order. -/
theorem Node.run_walk (n : Node) (path : List Text) (seen : List Scalar) :
    (n.walk (.recording f) revision).run seen =
      pure (n.visit (.onScalars f) revision path, seen ++ n.nodes.filterMap asScalar) := by
  induction n using Node.induction generalizing path seen with
  | step n ih =>
    have changes := changesScalars_visit f revision
    cases isScalar : n.asScalar with
    | some s =>
      obtain rfl := asScalar_eq_some.mp isScalar
      rfl
    | none =>
      have walk : n.walk (.recording f) revision = n.walkInside (.recording f) revision := by
        cases n with
        | scalar s => contradiction
        | _ => rfl
      have each (place : Slot × Node) (isSlot : place ∈ n.slots) (seen : List Scalar) :
          (place.1.settle place.2 <$> place.2.walk (.recording f) revision).run seen =
            pure (place.2.visit (.onScalars f) revision (path ++ n.ownKeys),
              seen ++ place.2.nodes.filterMap asScalar) := by
        have fits := changes.fits place.1.role (path ++ n.ownKeys) place.2 place.1
        rw [fits_of_slots isSlot] at fits
        rw [StateT.run_map, ih place.2 (mem_children_of_slots isSlot) (path ++ n.ownKeys),
          map_pure, Slot.settle_of_fits fits]
      rw [walk, walkInside_eq, StateT.run_map, run_mapM_recording each, map_pure,
        changes.inside .body path isScalar, filterMap_asScalar_nodes isScalar]

theorem Document.run_walk (revision : Nat) (d : Document) (seen : List Scalar) :
    (d.walk (.recording f) revision).run seen =
      pure (d.visit (.onScalars f) revision, seen ++ d.nodes.filterMap Node.asScalar) := by
  rw [Node.document_walk, StateT.run_map, Node.run_walk (.document d) [], map_pure,
    ← Document.visit_onScalars]
  rfl

theorem Stream.run_walk (s : Stream) (seen : List Scalar) :
    (s.walk (.recording f)).run seen =
      pure (s.visit (.onScalars f), seen ++ s.nodes.filterMap Node.asScalar) := by
  have documents := run_mapM_recording (l := s.documents)
    (fun d _ seen => d.run_walk (f := f) s.nextRevision seen) seen
  rw [Stream.walk, ← map_eq_pure_bind, StateT.run_map, documents, map_pure, Stream.nodes,
    List.filterMap_flatMap]
  rfl

end Recording

section Misfits

variable {m : Type → Type} [Monad m]

/-- All that the computation can come to satisfies `p`. -/
def Always {α : Type} (p : α → Prop) (x : m α) : Prop := ∃ y : m {a // p a}, Subtype.val <$> y = x

/-- The answer of a walker about a node, if it comes to one, does not fit where the node stands. -/
def Misfits (answer? : m Node → Node → m (Option Node)) (place : Slot × Node) : Prop :=
  ∀ inside, Always (fun answer => ∀ a ∈ answer, place.1.fits a = false) (answer? inside place.2)

/-- The same answers, each the node itself. -/
def keeping (answer? : m Node → Node → m (Option Node)) : m Node → Node → m (Option Node) :=
  fun inside n => Option.map (fun _ => n) <$> answer? inside n

/-- The two walkers come to the same in the slot of a node. -/
def AlikeIn (w w' : Walker m) (place : Slot × Node) : Prop :=
  ∀ inside, place.1.settle place.2 <$> w inside place.2 =
    place.1.settle place.2 <$> w' inside place.2

variable [LawfulMonad m] {w w' : Walker m}

theorem Node.walkInside_congr {revision : Nat} {n : Node}
    (alike : ∀ place ∈ n.nodes.flatMap slots, AlikeIn w w' place) :
    n.walkInside w revision = n.walkInside w' revision := by
  induction n using Node.induction with
  | step n ih =>
    rw [walkInside_eq, walkInside_eq]
    refine congrArg _ (mapM_congr fun place isSlot => ?_)
    have isNode := mem_nodes_of_child (mem_children_of_slots isSlot)
    have below := ih place.2 (mem_children_of_slots isSlot) fun place' isSlot' => by
      obtain ⟨k, isBelow, isSlot'⟩ := List.mem_flatMap.mp isSlot'
      exact alike place' (List.mem_flatMap_of_mem (nodes_subset isNode isBelow) isSlot')
    rw [walk, walk, below]
    exact alike place (List.mem_flatMap_of_mem n.mem_nodes isSlot) _

/-- Walkers that come to the same in every slot of a stream walk over it alike. -/
theorem Stream.walk_congr {s : Stream} (alike : ∀ place ∈ s.slots, AlikeIn w w' place) :
    s.walk w = s.walk w' := by
  have each : ∀ d ∈ s.documents, d.walk w s.nextRevision = d.walk w' s.nextRevision := by
    intro d isDocument
    have below : (Node.document d).walkInside w s.nextRevision =
        (Node.document d).walkInside w' s.nextRevision := by
      refine Node.walkInside_congr fun place isSlot => alike place (List.mem_append_right _ ?_)
      obtain ⟨k, isNode, isSlot⟩ := List.mem_flatMap.mp isSlot
      exact List.mem_flatMap_of_mem (List.mem_flatMap_of_mem isDocument isNode) isSlot
    have here := alike (.document, .document d) (List.mem_append_left _
      (List.mem_map_of_mem isDocument)) ((Node.document d).walkInside w' s.nextRevision)
    have unwrapped := congrArg ((fun answer : Node => answer.asDocument.getD d) <$> ·) here
    simp only [Functor.map_map, Node.settle_document, Node.asDocument, Option.getD_some]
      at unwrapped
    rw [Node.document_walk, Node.document_walk, Node.walk, Node.walk, below]
    exact unwrapped
  rw [Stream.walk, Stream.walk, mapM_congr each]

/-- An answer that does not fit counts as the node itself. -/
theorem alikeIn_of_misfits {answer? : m Node → Node → m (Option Node)} {place : Slot × Node}
    (misfits : Misfits answer? place) :
    AlikeIn (w.answering answer?) (w.answering (keeping answer?)) place := by
  intro inside
  obtain ⟨answer, isAnswer⟩ := misfits inside
  simp only [Walker.answering, keeping, ← isAnswer, bind_map_left, map_bind]
  refine congrArg (answer >>= ·) (funext fun answer => ?_)
  obtain ⟨answer, misfit⟩ := answer
  cases answer with
  | none => rfl
  | some a =>
    have same : place.1.settle place.2 a = place.1.settle place.2 place.2 := by
      rw [Slot.settle_of_misfit (misfit a rfl), Slot.settle_self]
    simp only [Option.map_some, map_pure, same]

end Misfits

/-- What stands after a change of scalars by `f` where the node `n` of the stream stood. -/
structure Stream.NodeChanged (s : Stream) (f : Scalar → Scalar) (n n' : Node) : Prop where
  scalar : ∀ t, n = .scalar t → n' = .scalar (f t)
  /-- A node that is no scalar has as many children as before and says by itself what it said. -/
  shape : n.asScalar = none → n'.bare = n.bare ∧ n'.children.length = n.children.length
  /-- It is the node it was if each scalar below it is. -/
  kept : n.asScalar = none → (∀ t, .scalar t ∈ n.nodes → (f t).id = t.id) → n' = n
  /-- Else it is none of the nodes that there were. -/
  renewed : n.asScalar = none → (∃ t, .scalar t ∈ n.nodes ∧ (f t).id ≠ t.id) →
    ∀ m ∈ s.nodes, n'.id ≠ m.id

/-- What is left of a stream after a change of its scalars by `f`. -/
structure Stream.Changed (s : Stream) (f : Scalar → Scalar) (s' : Stream) : Prop where
  trailer : s'.trailer = s.trailer
  length : s'.documents.length = s.documents.length
  /-- The same addresses lead to nodes. -/
  nodes : ∀ address, Option.Rel (s.NodeChanged f) (s.nodeAt? address) (s'.nodeAt? address)
  scalars : s'.scalars.map Prod.snd = (s.scalars.map Prod.snd).map f
  kept : (∀ t, .scalar t ∈ s.nodes → (f t).id = t.id) → s' = s
  renewed : (∃ t, .scalar t ∈ s.nodes ∧ (f t).id ≠ t.id) → s'.id ≠ s.id

section

variable {f : Scalar → Scalar} {s : Stream}

theorem Stream.Changed.exists_nodeAt {s' : Stream} (changed : s.Changed f s') {address : List Nat}
    {n : Node} (found : s.nodeAt? address = some n) :
    ∃ n', s'.nodeAt? address = some n' ∧ s.NodeChanged f n n' := by
  have nodes := changed.nodes address
  rw [found] at nodes
  cases after : s'.nodeAt? address with
  | none =>
    rw [after] at nodes
    contradiction
  | some n' =>
    rw [after, Option.rel_some_some] at nodes
    exact ⟨n', rfl, nodes⟩

/-- The identities of scalars tell whether they are changed. -/
def Stream.Tells (s : Stream) (f : Scalar → Scalar) : Prop :=
  ∀ t, .scalar t ∈ s.nodes → (f t).id = t.id → f t = t

theorem Stream.Tells.kept_iff (tells : s.Tells f) {nodes : List Node} (inside : nodes ⊆ s.nodes) :
    (∀ t, .scalar t ∈ nodes → f t = t) ↔ ∀ t, .scalar t ∈ nodes → (f t).id = t.id :=
  forall₂_congr fun t isScalar => ⟨congrArg Scalar.id, tells t (inside isScalar)⟩

theorem Stream.Tells.shows {source : Text} (parsed : parse source = .ok s) (tells : s.Tells f)
    {n : Node} (isNode : n ∈ s.nodes) : n.Shows s.nextRevision fun _ _ => f where
  older _ inside := older_of_parse parsed (Stream.mem_nodes isNode inside)
  scalar _ _ t inside := tells t (Stream.mem_nodes isNode inside)

/-- A node of a stream and what comes of it. -/
theorem Stream.Tells.nodeChanged (tells : s.Tells f)
    (shows : ∀ n ∈ s.nodes, n.Shows s.nextRevision fun _ _ => f) {n : Node}
    (isNode : n ∈ s.nodes) (keys : List Text) :
    s.NodeChanged f n (n.visit (.onScalars f) s.nextRevision keys) := by
  have changes := Node.changesScalars_visit f s.nextRevision
  have kept := Node.visit_eq_self_iff (shows n isNode) keys
  rw [tells.kept_iff (Stream.nodes_sublist isNode).subset] at kept
  refine ⟨?_, fun notScalar => ⟨changes.bare_eq .body keys notScalar, ?_⟩, fun _ => kept.mpr, ?_⟩
  · rintro t rfl
    rfl
  · rw [changes.children_eq (shows n isNode) .body keys notScalar, n.children_eq, List.length_map,
      List.length_map]
  · rintro notScalar ⟨t, inside, changed⟩ m isNode' same
    have renewed := (changes.eq_iff (shows n isNode) .body keys notScalar).2
      fun unchanged => changed (kept.mp unchanged t inside)
    refine (shows m isNode').older m m.mem_nodes ?_
    rw [← same, renewed, NodeId.revision_revised]

theorem Stream.Tells.changed (tells : s.Tells f)
    (shows : ∀ n ∈ s.nodes, n.Shows s.nextRevision fun _ _ => f) :
    s.Changed f (s.visit (.onScalars f)) := by
  have rebuilt := Stream.visit_kept_or_renewed shows
  rw [tells.kept_iff (List.Subset.refl _)] at rebuilt
  refine ⟨Stream.trailer_withDocuments _ _ _, ?_, fun address => ?_, ?_, ?_, ?_⟩
  · rw [Stream.documents_visit shows, List.length_map]
  · obtain ⟨keys, after⟩ := Stream.nodeAt?_visit shows address
    rw [after]
    cases found : s.nodeAt? address with
    | none => exact .none
    | some n => exact .some (tells.nodeChanged shows (Stream.mem_nodes_of_nodeAt found) keys)
  · rw [← Stream.nodes_asScalar, ← Stream.nodes_asScalar, Stream.asScalar_nodes_visit shows]
  · intro same
    exact (rebuilt.resolve_right fun other => other.1 same).2
  · rintro ⟨t, inside, changed⟩
    exact (rebuilt.resolve_left fun kept => changed (kept.1 t inside)).2

end

end Yaml

/-- What is left of a file with a YAML stream after a change of its scalars by `f`. -/
structure SourceFile.Changed (file : SourceFile) (s : Yaml.Stream) (f : Yaml.Scalar → Yaml.Scalar)
    (file' : SourceFile) : Prop where
  path : file'.path = file.path
  markers : file'.markers = file.markers
  content : ∃ s', file'.content = .yaml s' ∧ s.Changed f s'
  kept : (∀ t, .scalar t ∈ s.nodes → (f t).id = t.id) → file' = file
  renewed : (∃ t, .scalar t ∈ s.nodes ∧ (f t).id ≠ t.id) → file'.id ≠ file.id

namespace Yaml

/-- A file keeps its path and markers with a changed stream. -/
theorem Stream.Changed.mapYaml {s : Stream} {f : Scalar → Scalar} {change : Stream → Stream}
    (changed : s.Changed f (change s)) {file : SourceFile} (yaml : file.content = .yaml s) :
    file.Changed s f (file.mapYaml change) := by
  have unfolded : file.mapYaml change = if (change s).id = s.id then file
      else { file with id := file.id.revised file.nextRevision, content := .yaml (change s) } := by
    rw [SourceFile.mapYaml, yaml]
  by_cases all : ∀ t, .scalar t ∈ s.nodes → (f t).id = t.id
  · have same := changed.kept all
    rw [unfolded, if_pos (congrArg Stream.id same)]
    refine ⟨rfl, rfl, ⟨change s, by rw [yaml, same], changed⟩, fun _ => rfl, ?_⟩
    rintro ⟨t, inside, other⟩
    exact absurd (all t inside) other
  · have some : ∃ t, .scalar t ∈ s.nodes ∧ (f t).id ≠ t.id := by simpa using all
    rw [unfolded, if_neg (changed.renewed some)]
    refine ⟨rfl, rfl, ⟨_, rfl, changed⟩, fun kept => absurd kept all, fun _ => ?_⟩
    exact NodeId.revised_ne (Nat.ne_of_lt (Nat.lt_succ_self _))

/-- In a stream that was read, and in its file, a visitor that changes scalars leaves every node as
it is below which all scalars stay the nodes they are, and makes every other node anew, with the
shape and all that it says by itself. Scalars become what `f` makes of them, each where it stood.
As a walk the visitor meets each of them once, in printing order. A walker that answers with nodes
that do not fit where they are to stand goes on as if it had answered with the nodes that were
there. -/
theorem visit_onScalars_of_parse {source : Text} {s : Stream} (parsed : parse source = .ok s)
    {f : Scalar → Scalar} (tells : s.Tells f) :
    s.Changed f (s.visit (.onScalars f)) ∧
    (∀ file : SourceFile, file.content = .yaml s →
      file.Changed s f (file.mapYaml (·.visit (.onScalars f)))) ∧
    (∀ seen, (s.walk (.recording f)).run seen =
      (s.visit (.onScalars f), seen ++ s.scalars.map Prod.snd)) ∧
    ∀ (m : Type → Type) [Monad m] [LawfulMonad m] (w : Walker m)
      (answer? : m Node → Node → m (Option Node)), (∀ place ∈ s.slots, Misfits answer? place) →
        s.walk (w.answering answer?) = s.walk (w.answering (keeping answer?)) := by
  have changed := tells.changed fun n => tells.shows parsed
  refine ⟨changed, fun file => changed.mapYaml, fun seen => ?_, ?_⟩
  · rw [← s.nodes_asScalar]
    exact s.run_walk seen
  · intro m _ _ w answer? misfits
    exact s.walk_congr fun place isSlot => alikeIn_of_misfits (misfits place isSlot)

/-- Nested collections in two documents. -/
def sharedText : Text := "a: [1, 2]\nb: 3\n---\n- 1\n".toList

/-- Changes the scalar `2`. -/
def twoToX (t : Scalar) : Scalar := if t.text = ['2'] then t.withText 1 ['x'] else t

/-- Whether all scalars at and below a node stay the nodes they are. -/
def keepsBelow (f : Scalar → Scalar) (n : Node) : Bool :=
  (n.nodes.filterMap Node.asScalar).all fun t => (f t).id = t.id

theorem keepsBelow_eq_true {f : Scalar → Scalar} {n : Node} :
    keepsBelow f n = true ↔ ∀ t, .scalar t ∈ n.nodes → (f t).id = t.id := by
  simp only [keepsBelow, List.all_eq_true, decide_eq_true_eq, List.mem_filterMap,
    Node.asScalar_eq_some, exists_eq_right]

/-- The entry of the changed item is made anew, and the entry beside it and the other document are
the nodes they were. -/
theorem visit_onScalars_of_parse_sharedText :
    ∃ s, parse sharedText = .ok s ∧
      (s.visit (.onScalars twoToX)).print = "a: [1, x]\nb: 3\n---\n- 1\n".toList ∧
      (∃ e', (s.visit (.onScalars twoToX)).nodeAt? [0, 0, 0] = some e' ∧
        ∀ m ∈ s.nodes, e'.id ≠ m.id) ∧
      (s.visit (.onScalars twoToX)).nodeAt? [0, 0, 1] = s.nodeAt? [0, 0, 1] ∧
      (s.visit (.onScalars twoToX)).nodeAt? [1] = s.nodeAt? [1] := by
  obtain ⟨s, parsed, print, changes, keepsEntry, keepsDocument⟩ : ∃ s, parse sharedText = .ok s ∧
      (s.visit (.onScalars twoToX)).print = "a: [1, x]\nb: 3\n---\n- 1\n".toList ∧
      (s.nodeAt? [0, 0, 0]).map (fun n => (n.asScalar.isNone, keepsBelow twoToX n)) =
        some (true, false) ∧
      (s.nodeAt? [0, 0, 1]).map (fun n => (n.asScalar.isNone, keepsBelow twoToX n)) =
        some (true, true) ∧
      (s.nodeAt? [1]).map (fun n => (n.asScalar.isNone, keepsBelow twoToX n)) =
        some (true, true) := exists_parse (by decide +kernel)
  have tells : s.Tells twoToX := by
    intro t inside same
    have older := revision_of_parse parsed inside
    unfold twoToX at same ⊢
    split at same
    · next two =>
      have other : ['x'] ≠ t.text := by
        rw [two]
        decide
      rw [Scalar.withText, if_neg other] at same
      rw [Node.id, ← same] at older
      exact absurd older Nat.one_ne_zero
    · next notTwo => rw [if_neg notTwo]
  obtain ⟨changed, -⟩ := visit_onScalars_of_parse parsed tells
  have kept {address : List Nat} (keeps : (s.nodeAt? address).map
      (fun n => (n.asScalar.isNone, keepsBelow twoToX n)) = some (true, true)) :
      (s.visit (.onScalars twoToX)).nodeAt? address = s.nodeAt? address := by
    obtain ⟨n, found, isKept⟩ := Option.map_eq_some_iff.mp keeps
    rw [Prod.mk.injEq, Option.isNone_iff_eq_none, keepsBelow_eq_true] at isKept
    obtain ⟨n', after, isChanged⟩ := changed.exists_nodeAt found
    rw [after, found, isChanged.kept isKept.1 isKept.2]
  refine ⟨s, parsed, print, ?_, kept keepsEntry, kept keepsDocument⟩
  obtain ⟨n, found, isChanged⟩ := Option.map_eq_some_iff.mp changes
  rw [Prod.mk.injEq, Option.isNone_iff_eq_none, ← Bool.not_eq_true, keepsBelow_eq_true] at isChanged
  obtain ⟨n', after, renewed⟩ := changed.exists_nodeAt found
  exact ⟨n', after, renewed.renewed isChanged.1 (by simpa using isChanged.2)⟩

end Yaml

end ConfigTree
