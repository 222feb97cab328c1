import ConfigTree.Proofs.Yaml.Marking

/-!
# Searching a file by key

What the search for values by their keys makes of a file, in terms of the text of the file: an
arrow in front of every value that is found, and a hit for it with its keys and its line. Marking,
printing and listing the hits go over the tree each in its own way. They agree because each goes
over the segments of the tree in their order.
-/

namespace ConfigTree

namespace Text

/-- The text with `inserted` behind its first `n` characters. -/
def insertAt (inserted : Text) (n : Nat) (t : Text) : Text := t.take n ++ inserted ++ t.drop n

/-- The text with `inserted` at each of some places in it, which ascend. -/
def insertAll (inserted : Text) (places : List Nat) (t : Text) : Text :=
  places.foldr (insertAt inserted) t

@[simp] theorem insertAll_nil (inserted t : Text) : insertAll inserted [] t = t := rfl

@[simp] theorem insertAll_cons (inserted : Text) (n : Nat) (places : List Nat) (t : Text) :
    insertAll inserted (n :: places) t = insertAt inserted n (insertAll inserted places t) := rfl

theorem insertAt_length (inserted front behind : Text) :
    insertAt inserted front.length (front ++ behind) = front ++ inserted ++ behind := by
  rw [insertAt, List.take_left, List.drop_left]

end Text

namespace Yaml

variable {p : Text → Bool} {revision : Nat}

/-- The scalars that are found, at their places. -/
def Stream.found (p : Text → Bool) (s : Stream) : List Site := s.sites.filter (Site.isFound p)

/-- The scalars among the segments have no marks. -/
def Unmarked (segments : List Segment) : Prop :=
  ∀ role keys s, .scalar role keys s ∈ segments → s.mark = none

theorem Unmarked.tail {segment : Segment} {segments : List Segment}
    (h : Unmarked (segment :: segments)) : Unmarked segments :=
  fun role keys s inside => h role keys s (List.mem_cons_of_mem _ inside)

theorem Unmarked.head {role : Role} {keys : List Text} {s : Scalar} {segments : List Segment}
    (h : Unmarked (.scalar role keys s :: segments)) : s.mark = none :=
  h role keys s List.mem_cons_self

@[simp] theorem Scalar.lead_withMark (s : Scalar) (revision : Nat) (mark : Mark) :
    (s.withMark revision mark).lead = s.lead := by
  rw [Scalar.withMark]
  split <;> rfl

@[simp] theorem Scalar.text_withMark (s : Scalar) (revision : Nat) (mark : Mark) :
    (s.withMark revision mark).text = s.text := by
  rw [Scalar.withMark]
  split <;> rfl

theorem Scalar.mark_withMark {s : Scalar} (unmarked : s.mark = none) (revision : Nat)
    (mark : Mark) : (s.withMark revision mark).mark = some mark := by
  rw [Scalar.withMark, unmarked]

theorem Scalar.print_withMark {s : Scalar} (unmarked : s.mark = none) (revision : Nat)
    (mark : Mark) :
    Piece.print (s.withMark revision mark).pieces = s.lead ++ mark.arrow ++ s.written := by
  simp [Scalar.withMark, unmarked, Scalar.pieces, Scalar.written]

theorem filter_sitesFrom_eq_nil (front : Text) (segments : List Segment) :
    (sitesFrom front segments).filter (Site.isFound p) = [] ↔
      segments.any (Segment.isFound p) = false := by
  induction segments generalizing front with
  | nil => simp [sitesFrom]
  | cons segment segments ih =>
    cases segment with
    | chars t => simpa [sitesFrom, Segment.isFound] using ih (front ++ t)
    | scalar role keys s =>
      simpa [sitesFrom, Segment.isFound, Site.isFound] using
        fun _ => ih (front ++ Piece.print s.pieces)

/-- A site is a place in the text with the lead of the scalar in front and the scalar behind. -/
theorem sitesFrom_places {segments : List Segment} (unmarked : Unmarked segments) (front : Text) :
    ∀ site ∈ sitesFrom front segments, site.scalar.lead <:+ site.before ∧
      site.before ++ site.scalar.written <+:
        front ++ Piece.print (segments.flatMap Segment.pieces) := by
  induction segments generalizing front with
  | nil => simp [sitesFrom]
  | cons segment segments ih =>
    have others := ih unmarked.tail
    cases segment with
    | chars t => simpa [sitesFrom] using others (front ++ t)
    | scalar role keys s =>
      have printed := Scalar.print_pieces unmarked.head
      intro site inside
      rcases List.mem_cons.mp inside with rfl | inside
      · refine ⟨List.suffix_append front s.lead, ?_⟩
        simp [printed]
      · simpa using others _ site inside

/-- Marking puts an arrow in front of every scalar that is found. -/
theorem print_marked (p : Text → Bool) (revision : Nat) {segments : List Segment}
    (unmarked : Unmarked segments) (front : Text) :
    front ++ Piece.print ((segments.map (Segment.marked p revision)).flatMap Segment.pieces) =
      Text.insertAll (Mark.arrow {})
        (((sitesFrom front segments).filter (Site.isFound p)).map fun site => site.before.length)
        (front ++ Piece.print (segments.flatMap Segment.pieces)) := by
  induction segments generalizing front with
  | nil => rfl
  | cons segment segments ih =>
    have others := ih unmarked.tail
    cases segment with
    | chars t => simpa [sitesFrom, Segment.marked] using others (front ++ t)
    | scalar role keys s =>
      have printed := Scalar.print_pieces unmarked.head
      have others := others (front ++ Piece.print s.pieces)
      by_cases found : isFound p role keys = true
      · have here := Scalar.print_withMark unmarked.head revision {}
        have split (rest : Text) : front ++ Piece.print s.pieces ++ rest =
            (front ++ s.lead) ++ (s.written ++ rest) := by
          simp [printed]
        calc front ++ Piece.print ((((.scalar role keys s : Segment) :: segments).map
              (Segment.marked p revision)).flatMap Segment.pieces)
          _ = (front ++ s.lead) ++ Mark.arrow {} ++ (s.written ++
                Piece.print ((segments.map (Segment.marked p revision)).flatMap
                  Segment.pieces)) := by
            simp [Segment.marked, found, here]
          _ = _ := by
            rw [← Text.insertAt_length, ← split, others]
            simp [sitesFrom, Site.isFound, found]
      · simpa [sitesFrom, Segment.marked, Site.isFound, found] using others

/-- The marks are those on the scalars that were found, and their lines are the lines of these
before marking: an arrow stays on its line. -/
theorem hits_marked {segments : List Segment} (unmarked : Unmarked segments) {front front' : Text}
    (lines : front'.lineFeeds = front.lineFeeds) :
    (sitesFrom front' (segments.map (Segment.marked p revision))).filterMap Site.hit =
      ((sitesFrom front segments).filter (Site.isFound p)).map fun site =>
        let s := site.scalar.withMark revision {}
        ((site.keys, s, {}), (s, 1 + site.before.lineFeeds)) := by
  induction segments generalizing front front' with
  | nil => rfl
  | cons segment segments ih =>
    have others := @ih unmarked.tail
    cases segment with
    | chars t =>
      have same : (front' ++ t).lineFeeds = (front ++ t).lineFeeds := by
        rw [lineFeeds_append, lineFeeds_append, lines]
      exact others same
    | scalar role keys s =>
      have printed := Scalar.print_pieces unmarked.head
      by_cases found : isFound p role keys = true
      · have here := Scalar.print_withMark unmarked.head revision {}
        have same : (front' ++ Piece.print (s.withMark revision {}).pieces).lineFeeds =
            (front ++ Piece.print s.pieces).lineFeeds := by
          have arrow : (Mark.arrow {}).lineFeeds = 0 := rfl
          rw [here, printed]
          simp only [lineFeeds_append, lines, arrow, Nat.add_zero]
        have others := others same
        have mark := Scalar.mark_withMark unmarked.head revision {}
        simp [sitesFrom, Segment.marked, Site.isFound, Site.hit, found, mark, lineFeeds_append,
          lines, others]
      · have same : (front' ++ Piece.print s.pieces).lineFeeds =
            (front ++ Piece.print s.pieces).lineFeeds := by
          rw [lineFeeds_append, lineFeeds_append, lines]
        simpa [sitesFrom, Segment.marked, Site.isFound, Site.hit, found, unmarked.head] using
          others same

theorem length_le_of_mem_sitesFrom {front : Text} {segments : List Segment} {site : Site}
    (inside : site ∈ sitesFrom front segments) : front.length ≤ site.before.length := by
  induction segments generalizing front with
  | nil => contradiction
  | cons segment segments ih =>
    cases segment with
    | chars t =>
      have behind := ih inside
      rw [List.length_append] at behind
      omega
    | scalar role keys s =>
      rcases List.mem_cons.mp inside with rfl | inside
      · rw [List.length_append]
        omega
      · have behind := ih inside
        rw [List.length_append] at behind
        omega

/-- The sites are in the order of the text. -/
theorem sitesFrom_ascend (front : Text) (segments : List Segment) :
    (sitesFrom front segments).Pairwise fun site other =>
      site.before.length ≤ other.before.length := by
  induction segments generalizing front with
  | nil => exact List.Pairwise.nil
  | cons segment segments ih =>
    cases segment with
    | chars t => exact ih (front ++ t)
    | scalar role keys s =>
      refine List.pairwise_cons.mpr ⟨?_, ih _⟩
      intro other inside
      have behind := length_le_of_mem_sitesFrom inside
      have lead : (front ++ s.lead).length ≤ (front ++ Piece.print s.pieces).length := by
        cases marked : s.mark <;> simp [Scalar.pieces, marked]
      exact Nat.le_trans lead behind

theorem unmarked_segments {text : Text} {s : Stream} (parsed : parse text = .ok s) :
    Unmarked s.segments := by
  intro role keys t inside
  exact (fresh_of_parse parsed _ (Stream.mem_nodes_of_segments inside)).unmarked t rfl

theorem print_segments {text : Text} {s : Stream} (parsed : parse text = .ok s) :
    Piece.print (s.segments.flatMap Segment.pieces) = text := by
  rw [← s.pieces_eq]
  exact (readsStream_of_parse parsed).print_eq

theorem segments_markByKey {text : Text} {s : Stream} (parsed : parse text = .ok s)
    (p : Text → Bool) :
    (s.markByKey p).segments = s.segments.map (Segment.marked p s.nextRevision) :=
  (Stream.marks (fresh_of_parse parsed)).segments_eq

/-- A stream stays the node it is exactly if nothing is found in it. -/
theorem id_markByKey {text : Text} {s : Stream} (parsed : parse text = .ok s)
    (p : Text → Bool) :
    (s.markByKey p).id = s.id ↔ s.found p = [] := by
  have marks := Stream.marks (p := p) (fresh_of_parse parsed)
  rw [Stream.found, Stream.sites, filter_sitesFrom_eq_nil]
  cases any : s.segments.any (Segment.isFound p) with
  | false => simp [marks.same any]
  | true => simp [marks.changed any]

theorem print_markByKey {text : Text} {s : Stream} (parsed : parse text = .ok s)
    (p : Text → Bool) :
    (s.markByKey p).print =
      Text.insertAll (Mark.arrow {}) ((s.found p).map fun site => site.before.length) text := by
  have marked := print_marked p s.nextRevision (unmarked_segments parsed) []
  rw [List.nil_append, List.nil_append, print_segments parsed] at marked
  rw [Stream.print, Stream.pieces_eq, segments_markByKey parsed]
  exact marked

theorem hits_markByKey {text : Text} {s : Stream} (parsed : parse text = .ok s)
    (p : Text → Bool) :
    (s.markByKey p).sites.filterMap Site.hit = (s.found p).map fun site =>
      let marked := site.scalar.withMark s.nextRevision {}
      ((site.keys, marked, {}), (marked, 1 + site.before.lineFeeds)) := by
  rw [Stream.sites, segments_markByKey parsed]
  exact hits_marked (unmarked_segments parsed) rfl

theorem mark_markByKey {text : Text} {s : Stream} (parsed : parse text = .ok s) (p : Text → Bool)
    {role : Role} {keys : List Text} {t : Scalar}
    (inside : .scalar role keys t ∈ (s.markByKey p).segments) :
    t.mark = if isFound p role keys then some {} else none := by
  rw [segments_markByKey parsed] at inside
  obtain ⟨segment, original, marked⟩ := List.mem_map.mp inside
  cases segment with
  | chars t => cases marked
  | scalar role' keys' t' =>
    have unmarked := unmarked_segments parsed _ _ _ original
    cases marked
    split
    · exact Scalar.mark_withMark unmarked _ _
    · exact unmarked

/-! ## Files -/

theorem parse_of_content {path text : Text} {s : Stream}
    (h : FileContent.parse path text = .ok (.yaml s)) : parse text = .ok s := by
  simp only [FileContent.parse] at h
  split at h
  · cases parsed : parse text with
    | error e =>
      rw [parsed] at h
      contradiction
    | ok t =>
      rw [parsed] at h
      cases h
      rfl
  · split at h <;> cases h

theorem stream_of_parse {place : Nat} {path text : Text} {file : SourceFile} {s : Stream}
    (read : SourceFile.parse place path text = .ok file) (yaml : file.content = .yaml s) :
    file.path = path ∧ parse text = .ok s := by
  unfold SourceFile.parse at read
  cases parsed : FileContent.parse path text with
  | error e =>
    rw [parsed] at read
    contradiction
  | ok content =>
    rw [parsed] at read
    cases read
    cases yaml
    exact ⟨rfl, parse_of_content parsed⟩

/-- A file with the name of a YAML file is read as what its text is parsed to. -/
theorem exists_file_of_parse {path text : Text} {s : Stream} (place : Nat)
    (named : Path.extension? path = some "yml".toList) (parsed : parse text = .ok s) :
    ∃ file, SourceFile.parse place path text = .ok file ∧ file.content = .yaml s := by
  have content : FileContent.parse path text = .ok (.yaml s) := by
    rw [FileContent.parse, named, if_pos (Or.inl rfl), parsed]
    rfl
  rw [SourceFile.parse, content]
  exact ⟨_, rfl, rfl⟩

theorem markByKey_eq {file : SourceFile} {s : Stream} (yaml : file.content = .yaml s)
    (p : Text → Bool) :
    file.markByKey p = if (s.markByKey p).id = s.id then file else
      { file with
        id := file.id.revised file.nextRevision
        content := .yaml (s.markByKey p) } := by
  rw [SourceFile.markByKey, SourceFile.mapProperties, yaml, SourceFile.mapYaml, yaml]

theorem content_markByKey {file : SourceFile} {s : Stream} {text : Text}
    (parsed : parse text = .ok s) (yaml : file.content = .yaml s) (p : Text → Bool) :
    (file.markByKey p).content = .yaml (s.markByKey p) := by
  rw [markByKey_eq yaml]
  by_cases kept : (s.markByKey p).id = s.id
  · have notFound : s.segments.any (Segment.isFound p) = false := by
      rw [← filter_sitesFrom_eq_nil []]
      exact (id_markByKey parsed p).mp kept
    rw [if_pos kept, yaml, (Stream.marks (fresh_of_parse parsed)).same notFound]
  · rw [if_neg kept]

/-- What a search by key makes of a YAML file that was read. The values found are marked, keys are
never among them, and nothing else is changed. Every scalar has its place in the text, right behind
its lead. The file prints as its text with an arrow at the place of each value found, and it is the
file that it was if there is none. The hits are the values found in the order of the text, each with
its key and its line in the text. -/
theorem markByKey_of_parse {place : Nat} {path text : Text} {file : SourceFile} {s : Stream}
    (read : SourceFile.parse place path text = .ok file) (yaml : file.content = .yaml s)
    (p : Text → Bool) :
    ((file.markByKey p).content = .yaml (s.markByKey p) ∧
      (s.markByKey p).segments = s.segments.map (Segment.marked p s.nextRevision) ∧
      ∀ role keys t, .scalar role keys t ∈ (s.markByKey p).segments →
        t.mark = if isFound p role keys then some {} else none) ∧
    (s.sites.map (fun site => (site.keys, site.scalar)) = s.scalars ∧
      s.sites.Pairwise (fun site other => site.before.length ≤ other.before.length) ∧
      ∀ site ∈ s.sites, site.scalar.lead <:+ site.before ∧
        site.before ++ site.scalar.written <+: text) ∧
    (file.markByKey p).print =
      Text.insertAll ['~', '~', '>'] ((s.found p).map fun site => site.before.length) text ∧
    (((file.markByKey p).same file = true ↔ s.found p = []) ∧
      (s.found p = [] → file.markByKey p = file)) ∧
    (file.markByKey p).searchMatches = (s.found p).map fun site =>
      ⟨path, Text.joinWith '.' site.keys, site.scalar.text, none, 1 + site.before.lineFeeds⟩ := by
  obtain ⟨rfl, parsed⟩ := stream_of_parse read yaml
  have content := content_markByKey parsed yaml p
  have id := id_markByKey parsed p
  refine ⟨⟨content, segments_markByKey parsed p, ?_⟩, ⟨s.sites_eq, ?_, ?_⟩, ?_, ⟨?_, ?_⟩, ?_⟩
  · intro role keys t inside
    exact mark_markByKey parsed p inside
  · exact sitesFrom_ascend [] s.segments
  · have places := sitesFrom_places (unmarked_segments parsed) []
    rw [List.nil_append, print_segments parsed] at places
    exact places
  · rw [SourceFile.print, content]
    exact print_markByKey parsed p
  · rw [← id, markByKey_eq yaml]
    by_cases kept : (s.markByKey p).id = s.id
    · simp [kept, SourceFile.same]
    · have older : file.id.revision ≠ file.nextRevision := Nat.ne_of_lt (Nat.lt_succ_self _)
      simp [kept, SourceFile.same, NodeId.revised_ne older]
  · intro notFound
    rw [markByKey_eq yaml, if_pos (id.mpr notFound)]
  · have path_eq : (file.markByKey p).path = file.path := by
      rw [markByKey_eq yaml]
      split <;> rfl
    rw [SourceFile.searchMatches, content]
    simp only [Stream.zip_hits, hits_markByKey parsed, List.map_map, path_eq]
    apply List.map_congr_left
    intro site _
    simp

/-- Two documents in which values have the same key in different ways, beside values that do not. -/
def namesText : Text :=
  "app:\n  names: # all\n    - a\n    - - b\n      - names: c\n---\n- d\n- app.names: 'e'\n".toList

def isNames (key : Text) : Bool := key = "app.names".toList

/-- The values of one key in a nested sequence and in another document, and the same file for a key
that it does not have. -/
theorem markByKey_of_parse_namesText :
    ∃ file, SourceFile.parse 0 "application.yml".toList namesText = .ok file ∧
      (file.markByKey isNames).print = (
        "app:\n  names: # all\n    - ~~>a\n    - - ~~>b\n      - names: c\n" ++
        "---\n- d\n- app.names: ~~>'e'\n").toList ∧
      (file.markByKey isNames).searchMatches.map (fun m => (m.property, m.value, m.line)) =
        [("app.names".toList, ['a'], 3), ("app.names".toList, ['b'], 4),
          ("app.names".toList, ['e'], 8)] ∧
      file.markByKey (fun key => key = "app".toList) = file := by
  obtain ⟨s, parsed, places, told, notFound⟩ : ∃ s, parse namesText = .ok s ∧
      ((s.found isNames).map fun site => site.before.length) = [26, 36, 76] ∧
      ((s.found isNames).map fun site => (Text.joinWith '.' site.keys, site.scalar.text,
        1 + site.before.lineFeeds)) =
        [("app.names".toList, ['a'], 3), ("app.names".toList, ['b'], 4),
          ("app.names".toList, ['e'], 8)] ∧
      ((s.found fun key => key = "app".toList).map fun site => site.scalar) = [] :=
    exists_parse (by decide +kernel)
  obtain ⟨file, read, yaml⟩ : ∃ file, SourceFile.parse 0 "application.yml".toList namesText =
      .ok file ∧ file.content = .yaml s :=
    exists_file_of_parse 0 (by decide +kernel) parsed
  obtain ⟨-, -, print, -, searchMatches⟩ := markByKey_of_parse read yaml isNames
  obtain ⟨-, -, -, ⟨-, kept⟩, -⟩ := markByKey_of_parse read yaml fun key => key = "app".toList
  refine ⟨file, read, ?_, ?_, kept (List.map_eq_nil_iff.mp notFound)⟩
  · rw [print, places]
    decide +kernel
  · rw [searchMatches, List.map_map]
    exact told

end Yaml

end ConfigTree
