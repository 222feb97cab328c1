import ConfigTree.Search
import ConfigTree.Yaml.Print

/-!
# The text of a tree around its scalars

A tree prints as characters and scalars in turn. Here both are kept in one list, every scalar with
what it is in its tree and the keys around it. What a tree prints as, which scalars it holds and
where each of them stands in the text are read off this list, so that they cannot get out of step.
-/

namespace ConfigTree.Yaml

/-- What a scalar can be in its tree. -/
inductive Role where
  /-- All of a document. -/
  | body
  | key
  /-- The value of an entry. -/
  | value
  /-- An item of a sequence. -/
  | item
deriving DecidableEq, Repr

/-- A stretch of the text of a tree: characters, or a scalar with the keys of the entries around it,
outermost first. The key of an entry is inside that entry. -/
inductive Segment where
  | chars (text : Text)
  | scalar (role : Role) (keys : List Text) (scalar : Scalar)

namespace Segment

def pieces : Segment → List (Piece Scalar)
  | chars t => [.chars t]
  | scalar _ _ s => s.pieces

/-- The scalar, if it is one, with the keys around it. -/
def keyed : Segment → Option (List Text × Scalar)
  | chars _ => none
  | scalar _ keys s => some (keys, s)

@[simp] theorem pieces_chars (t : Text) : (chars t).pieces = [.chars t] := rfl

@[simp] theorem pieces_scalar (role : Role) (keys : List Text) (s : Scalar) :
    (scalar role keys s).pieces = s.pieces := rfl

@[simp] theorem keyed_chars (t : Text) : (chars t).keyed = none := rfl

@[simp] theorem keyed_scalar (role : Role) (keys : List Text) (s : Scalar) :
    (scalar role keys s).keyed = some (keys, s) := rfl

end Segment

/-- What closes an entry or an item: its comma, if it has one. -/
def commaSegments : Option Text → List Segment
  | none => []
  | some lead => [.chars (lead ++ [','])]

/-- The segments of a collection between its brackets, if it has any. -/
def CollectionStyle.segments (style : CollectionStyle) (opening closing : Char)
    (inner : List Segment) : List Segment :=
  match style with
  | .block => inner
  | .flow before last => .chars (before ++ [opening]) :: (inner ++ [.chars (last ++ [closing])])

mutual

/-- The segments of a value that has the given role, inside the entries with the keys `path`. -/
def Value.segments (role : Role) (path : List Text) : Value → List Segment
  | .scalar s => [.scalar role path s]
  | .mapping m => m.segments path
  | .sequence s => s.segments path

def Mapping.segments (path : List Text) : Mapping → List Segment
  | ⟨_, style, entries⟩ => style.segments '\x7b' '\x7d' (entriesSegments path entries)

def entriesSegments (path : List Text) : List Entry → List Segment
  | [] => []
  | e :: es => e.segments path ++ entriesSegments path es

def Entry.segments (path : List Text) : Entry → List Segment
  | ⟨_, lead, key, gap, value, comma⟩ =>
    .chars lead :: .scalar .key (path ++ [key.text]) key :: .chars (gap ++ [':']) ::
      (value.segments .value (path ++ [key.text]) ++ commaSegments comma)

def Sequence.segments (path : List Text) : Sequence → List Segment
  | ⟨_, style, items⟩ => style.segments '[' ']' (itemsSegments path items)

def itemsSegments (path : List Text) : List Item → List Segment
  | [] => []
  | i :: is => i.segments path ++ itemsSegments path is

def Item.segments (path : List Text) : Item → List Segment
  | ⟨_, lead, dash, value, comma⟩ =>
    .chars (if dash then lead ++ ['-'] else lead) ::
      (value.segments .item path ++ commaSegments comma)

end

def Document.segments (d : Document) : List Segment :=
  .chars (if d.explicitStart then d.lead ++ ['-', '-', '-'] else d.lead) ::
    (d.body.segments .body [] ++
      [.chars (if d.explicitEnd then d.tail ++ ['.', '.', '.'] else d.tail)])

/-- The text of the stream around its scalars. -/
def Stream.segments (s : Stream) : List Segment :=
  s.documents.flatMap Document.segments ++ [.chars s.trailer]

theorem commaPieces_eq (comma : Option Text) :
    commaPieces comma = (commaSegments comma).flatMap Segment.pieces := by
  cases comma <;> rfl

theorem CollectionStyle.around_eq (style : CollectionStyle) (opening closing : Char)
    (inner : List Segment) :
    style.around opening closing (inner.flatMap Segment.pieces) =
      (style.segments opening closing inner).flatMap Segment.pieces := by
  cases style with
  | block => rfl
  | flow before last =>
    simp [CollectionStyle.around, CollectionStyle.segments]

mutual

/-- A tree prints as its segments. -/
theorem Value.pieces_eq (role : Role) (path : List Text) (v : Value) :
    v.pieces = (v.segments role path).flatMap Segment.pieces := by
  cases v with
  | scalar s => simp [Value.pieces, Value.segments]
  | mapping m => exact m.pieces_eq path
  | sequence s => exact s.pieces_eq path

theorem Mapping.pieces_eq (path : List Text) (m : Mapping) :
    m.pieces = (m.segments path).flatMap Segment.pieces := by
  obtain ⟨id, style, entries⟩ := m
  rw [Mapping.pieces, entriesPieces_eq path entries, CollectionStyle.around_eq, Mapping.segments]

theorem entriesPieces_eq (path : List Text) (es : List Entry) :
    entriesPieces es = (entriesSegments path es).flatMap Segment.pieces := by
  cases es with
  | nil => rfl
  | cons e es =>
    rw [entriesPieces, e.pieces_eq path, entriesPieces_eq path es, entriesSegments,
      List.flatMap_append]

theorem Entry.pieces_eq (path : List Text) (e : Entry) :
    e.pieces = (e.segments path).flatMap Segment.pieces := by
  obtain ⟨id, lead, key, gap, value, comma⟩ := e
  have inner := value.pieces_eq .value (path ++ [key.text])
  simp [Entry.pieces, Entry.segments, inner, commaPieces_eq]

theorem Sequence.pieces_eq (path : List Text) (s : Sequence) :
    s.pieces = (s.segments path).flatMap Segment.pieces := by
  obtain ⟨id, style, items⟩ := s
  rw [Sequence.pieces, itemsPieces_eq path items, CollectionStyle.around_eq, Sequence.segments]

theorem itemsPieces_eq (path : List Text) (is : List Item) :
    itemsPieces is = (itemsSegments path is).flatMap Segment.pieces := by
  cases is with
  | nil => rfl
  | cons i is =>
    rw [itemsPieces, i.pieces_eq path, itemsPieces_eq path is, itemsSegments, List.flatMap_append]

theorem Item.pieces_eq (path : List Text) (i : Item) :
    i.pieces = (i.segments path).flatMap Segment.pieces := by
  obtain ⟨id, lead, dash, value, comma⟩ := i
  have inner := value.pieces_eq .item path
  simp [Item.pieces, Item.segments, inner, commaPieces_eq]

end

theorem Document.pieces_eq (d : Document) :
    d.pieces = d.segments.flatMap Segment.pieces := by
  have inner := d.body.pieces_eq .body []
  simp [Document.pieces, Document.segments, inner]

theorem Stream.pieces_eq (s : Stream) : s.pieces = s.segments.flatMap Segment.pieces := by
  have documents : Document.pieces = fun d => d.segments.flatMap Segment.pieces :=
    funext Document.pieces_eq
  simp [Stream.pieces, Stream.segments, documents, List.flatMap_assoc]

theorem filterMap_keyed_commaSegments (comma : Option Text) :
    (commaSegments comma).filterMap Segment.keyed = [] := by
  cases comma <;> rfl

theorem CollectionStyle.filterMap_keyed (style : CollectionStyle) (opening closing : Char)
    (inner : List Segment) :
    (style.segments opening closing inner).filterMap Segment.keyed =
      inner.filterMap Segment.keyed := by
  cases style with
  | block => rfl
  | flow before last => simp [CollectionStyle.segments, List.filterMap_cons]

mutual

/-- The scalars among the segments of a tree are those of the tree. -/
theorem Value.scalars_eq (role : Role) (path : List Text) (v : Value) :
    v.scalars path = (v.segments role path).filterMap Segment.keyed := by
  cases v with
  | scalar s => rfl
  | mapping m => exact m.scalars_eq path
  | sequence s => exact s.scalars_eq path

theorem Mapping.scalars_eq (path : List Text) (m : Mapping) :
    m.scalars path = (m.segments path).filterMap Segment.keyed := by
  obtain ⟨id, style, entries⟩ := m
  rw [Mapping.scalars, entriesScalars_eq path entries, Mapping.segments,
    CollectionStyle.filterMap_keyed]

theorem entriesScalars_eq (path : List Text) (es : List Entry) :
    entriesScalars path es = (entriesSegments path es).filterMap Segment.keyed := by
  cases es with
  | nil => rfl
  | cons e es =>
    rw [entriesScalars, e.scalars_eq path, entriesScalars_eq path es, entriesSegments,
      List.filterMap_append]

theorem Entry.scalars_eq (path : List Text) (e : Entry) :
    e.scalars path = (e.segments path).filterMap Segment.keyed := by
  obtain ⟨id, lead, key, gap, value, comma⟩ := e
  have inner := value.scalars_eq .value (path ++ [key.text])
  simp [Entry.scalars, Entry.segments, inner, filterMap_keyed_commaSegments, List.filterMap_cons]

theorem Sequence.scalars_eq (path : List Text) (s : Sequence) :
    s.scalars path = (s.segments path).filterMap Segment.keyed := by
  obtain ⟨id, style, items⟩ := s
  rw [Sequence.scalars, itemsScalars_eq path items, Sequence.segments,
    CollectionStyle.filterMap_keyed]

theorem itemsScalars_eq (path : List Text) (is : List Item) :
    itemsScalars path is = (itemsSegments path is).filterMap Segment.keyed := by
  cases is with
  | nil => rfl
  | cons i is =>
    rw [itemsScalars, i.scalars_eq path, itemsScalars_eq path is, itemsSegments,
      List.filterMap_append]

theorem Item.scalars_eq (path : List Text) (i : Item) :
    i.scalars path = (i.segments path).filterMap Segment.keyed := by
  obtain ⟨id, lead, dash, value, comma⟩ := i
  have inner := value.scalars_eq .item path
  simp [Item.scalars, Item.segments, inner, filterMap_keyed_commaSegments, List.filterMap_cons]

end

theorem Document.scalars_eq (d : Document) :
    d.body.scalars [] = d.segments.filterMap Segment.keyed := by
  have inner := d.body.scalars_eq .body []
  simp [Document.segments, inner, List.filterMap_cons]

theorem Stream.scalars_eq (s : Stream) : s.scalars = s.segments.filterMap Segment.keyed := by
  simp [Stream.scalars, Stream.segments, Document.scalars_eq, List.filterMap_flatMap]

mutual

/-- The scalars of a tree are the scalars among its nodes. -/
theorem Value.nodes_asScalar (path : List Text) (v : Value) :
    v.nodes.filterMap Node.asScalar = (v.scalars path).map Prod.snd := by
  cases v with
  | scalar s => rfl
  | mapping m => exact m.nodes_asScalar path
  | sequence s => exact s.nodes_asScalar path

theorem Mapping.nodes_asScalar (path : List Text) (m : Mapping) :
    m.nodes.filterMap Node.asScalar = (m.scalars path).map Prod.snd := by
  obtain ⟨id, style, entries⟩ := m
  exact entriesNodes_asScalar path entries

theorem entriesNodes_asScalar (path : List Text) (es : List Entry) :
    (entriesNodes es).filterMap Node.asScalar = (entriesScalars path es).map Prod.snd := by
  cases es with
  | nil => rfl
  | cons e es =>
    rw [entriesNodes, entriesScalars, List.filterMap_append, List.map_append,
      e.nodes_asScalar path, entriesNodes_asScalar path es]

theorem Entry.nodes_asScalar (path : List Text) (e : Entry) :
    e.nodes.filterMap Node.asScalar = (e.scalars path).map Prod.snd := by
  obtain ⟨id, lead, key, gap, value, comma⟩ := e
  exact congrArg (key :: ·) (value.nodes_asScalar (path ++ [key.text]))

theorem Sequence.nodes_asScalar (path : List Text) (s : Sequence) :
    s.nodes.filterMap Node.asScalar = (s.scalars path).map Prod.snd := by
  obtain ⟨id, style, items⟩ := s
  exact itemsNodes_asScalar path items

theorem itemsNodes_asScalar (path : List Text) (is : List Item) :
    (itemsNodes is).filterMap Node.asScalar = (itemsScalars path is).map Prod.snd := by
  cases is with
  | nil => rfl
  | cons i is =>
    rw [itemsNodes, itemsScalars, List.filterMap_append, List.map_append,
      i.nodes_asScalar path, itemsNodes_asScalar path is]

theorem Item.nodes_asScalar (path : List Text) (i : Item) :
    i.nodes.filterMap Node.asScalar = (i.scalars path).map Prod.snd := by
  obtain ⟨id, lead, dash, value, comma⟩ := i
  exact value.nodes_asScalar path

end

theorem Stream.nodes_asScalar (s : Stream) :
    s.nodes.filterMap Node.asScalar = s.scalars.map Prod.snd := by
  have documents : (fun d : Document => d.nodes.filterMap Node.asScalar) =
      fun d => (d.body.scalars []).map Prod.snd :=
    funext fun d => d.body.nodes_asScalar []
  rw [Stream.nodes, Stream.scalars, List.filterMap_flatMap, List.map_flatMap, documents]

/-- The scalars among the segments of a stream are nodes of the stream. -/
theorem Stream.mem_nodes_of_segments {s : Stream} {role : Role} {keys : List Text} {t : Scalar}
    (inside : .scalar role keys t ∈ s.segments) : .scalar t ∈ s.nodes := by
  have keyed : (keys, t) ∈ s.scalars := by
    rw [s.scalars_eq]
    exact List.mem_filterMap.mpr ⟨_, inside, rfl⟩
  have isScalar : t ∈ s.nodes.filterMap Node.asScalar := by
    rw [s.nodes_asScalar]
    exact List.mem_map.mpr ⟨_, keyed, rfl⟩
  obtain ⟨n, isNode, same⟩ := List.mem_filterMap.mp isScalar
  cases n with
  | scalar t' => cases same; exact isNode
  | _ => cases same

/-! ## Places in the text -/

/-- A scalar at its place in the text of a tree. -/
structure Site where
  role : Role
  keys : List Text
  scalar : Scalar
  /-- What is printed in front of the scalar without its lead, and of the mark on it. -/
  before : Text

/-- The scalars among the segments, when `before` is printed in front of them. -/
def sitesFrom (before : Text) : List Segment → List Site
  | [] => []
  | .chars t :: segments => sitesFrom (before ++ t) segments
  | .scalar role keys s :: segments =>
    ⟨role, keys, s, before ++ s.lead⟩ :: sitesFrom (before ++ Piece.print s.pieces) segments

/-- The scalars of the stream at their places, in printing order. -/
def Stream.sites (s : Stream) : List Site := sitesFrom [] s.segments

theorem sitesFrom_eq (before : Text) (segments : List Segment) :
    (sitesFrom before segments).map (fun site => (site.keys, site.scalar)) =
      segments.filterMap Segment.keyed := by
  induction segments generalizing before with
  | nil => rfl
  | cons segment segments ih =>
    cases segment with
    | chars t => exact ih (before ++ t)
    | scalar role keys s => exact congrArg ((keys, s) :: ·) (ih _)

/-- Every scalar of the stream has its site. -/
theorem Stream.sites_eq (s : Stream) :
    s.sites.map (fun site => (site.keys, site.scalar)) = s.scalars := by
  rw [s.scalars_eq]
  exact sitesFrom_eq [] s.segments

/-- The mark on the scalar, with what a search tells of it and with its line. -/
def Site.hit (site : Site) : Option ((List Text × Scalar × Mark) × (Scalar × Nat)) :=
  site.scalar.mark.map fun mark =>
    ((site.keys, site.scalar, mark), (site.scalar, 1 + site.before.lineFeeds))

/-- The marks of a scalar with the keys around it. -/
def hitOf : List Text × Scalar → Option (List Text × Scalar × Mark)
  | (keys, s) => s.mark.map fun mark => (keys, s, mark)

theorem lineFeeds_append (s t : Text) : Text.lineFeeds (s ++ t) = s.lineFeeds + t.lineFeeds :=
  List.count_append

/-- Going over the scalars and going over the pieces meets the same marks in the same order. -/
theorem zip_markedLinesFrom (before : Text) (segments : List Segment) :
    ((segments.filterMap Segment.keyed).filterMap hitOf).zip
        (Piece.markedLinesFrom (1 + before.lineFeeds) (segments.flatMap Segment.pieces)) =
      (sitesFrom before segments).filterMap Site.hit := by
  induction segments generalizing before with
  | nil => rfl
  | cons segment segments ih =>
    cases segment with
    | chars t =>
      have others := ih (before ++ t)
      rw [lineFeeds_append, ← Nat.add_assoc] at others
      exact others
    | scalar role keys s =>
      have others := ih (before ++ Piece.print s.pieces)
      cases marked : s.mark with
      | none =>
        simpa [Scalar.pieces, marked, Piece.markedLinesFrom, sitesFrom, Site.hit, hitOf,
          lineFeeds_append, ← Nat.add_assoc] using others
      | some mark =>
        simpa [Scalar.pieces, marked, Piece.markedLinesFrom, sitesFrom, Site.hit, hitOf,
          lineFeeds_append, ← Nat.add_assoc] using others

/-- The hits of a stream and the lines of its marks are those of its sites. -/
theorem Stream.zip_hits (s : Stream) :
    s.hits.zip (Piece.markedLines s.pieces) = s.sites.filterMap Site.hit := by
  have sites := zip_markedLinesFrom [] s.segments
  rw [← s.scalars_eq, ← s.pieces_eq] at sites
  exact sites

end ConfigTree.Yaml
