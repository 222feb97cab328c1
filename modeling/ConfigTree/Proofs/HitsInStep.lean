import ConfigTree.Proofs.Properties.Editing
import ConfigTree.Proofs.Yaml.Addresses

/-!
# Hits and their lines

The hits of a file come from a walk over its tree, and their lines from a walk over its printed
pieces. Both walks go by the places of the tree in their order, and stop where there is a mark. So
what stands at one position in both lists is about one and the same place, whatever is marked and
whatever the marks say.
-/

namespace ConfigTree

section InStep

variable {π σ η ℓ : Type}

/-- Hits and lines in step: they are about the marked places in their order, and so as many of each,
and at every position about one and the same place. -/
structure InStep [LT π] (marked : π → Prop) (isHitAt : π → η → Prop) (isLineAt : π → ℓ → Prop)
    (places : List π) (hits : List η) (lines : List ℓ) : Prop where
  ascending : places.Pairwise (· < ·)
  mem_iff : ∀ p, p ∈ places ↔ marked p
  hits : List.Forall₂ isHitAt places hits
  lines : List.Forall₂ isLineAt places lines

theorem InStep.length_eq [LT π] {marked : π → Prop} {isHitAt : π → η → Prop}
    {isLineAt : π → ℓ → Prop} {places : List π} {hits : List η} {lines : List ℓ}
    (h : InStep marked isHitAt isLineAt places hits lines) : hits.length = lines.length :=
  h.hits.length_eq.symm.trans h.lines.length_eq

/-- Lists stay in step when both keep only what one test accepts. -/
theorem forall₂_filter_filterMap {R : π → σ → Prop} {S : π → η → Prop} {p : π → Bool}
    {f : σ → Option η} {places : List π} {sites : List σ} (inStep : List.Forall₂ R places sites)
    (accepts : ∀ a b, R a b → p a = (f b).isSome) (gives : ∀ a b c, R a b → f b = some c → S a c) :
    List.Forall₂ S (places.filter p) (sites.filterMap f) := by
  induction inStep with
  | nil => exact .nil
  | @cons a b places sites related others ih =>
    have accepted := accepts a b related
    cases result : f b with
    | none =>
      rw [result] at accepted
      rwa [List.filter_cons_of_neg (by simp [accepted]), List.filterMap_cons_none result]
    | some c =>
      rw [result] at accepted
      rw [List.filter_cons_of_pos (by simp [accepted]), List.filterMap_cons_some result]
      exact .cons (gives a b c related result) ih

/-- What is read off the marked ones among the sites of all places is in step. -/
theorem exists_inStep_of_sites [LT π] {R : π → σ → Prop} {all : List π} {sites : List σ}
    {marked : π → Prop} {isHitAt : π → η → Prop} {isLineAt : π → ℓ → Prop}
    {hitOf : σ → Option η} {lineOf : σ → Option ℓ} (ascending : all.Pairwise (· < ·))
    (listed : ∀ p, marked p → p ∈ all) (inStep : List.Forall₂ R all sites)
    (hitOf_isSome : ∀ p site, R p site → ((hitOf site).isSome ↔ marked p))
    (lineOf_isSome : ∀ p site, R p site → ((lineOf site).isSome ↔ marked p))
    (isHitAt_of : ∀ p site hit, R p site → hitOf site = some hit → isHitAt p hit)
    (isLineAt_of : ∀ p site line, R p site → lineOf site = some line → isLineAt p line) :
    ∃ places, InStep marked isHitAt isLineAt places (sites.filterMap hitOf)
      (sites.filterMap lineOf) := by
  classical
  refine ⟨all.filter fun p => decide (marked p), ascending.filter _, fun p => ?_, ?_, ?_⟩
  · simpa using listed p
  · exact forall₂_filter_filterMap inStep
      (fun p site related => Bool.eq_iff_iff.mpr (by simp [hitOf_isSome p site related])) isHitAt_of
  · exact forall₂_filter_filterMap inStep
      (fun p site related => Bool.eq_iff_iff.mpr (by simp [lineOf_isSome p site related]))
      isLineAt_of

/-- Zipping lists in step pairs what is about one place. -/
theorem forall₂_map_zip {τ : Type} {R : π → η → Prop} {S : π → ℓ → Prop} {places : List π}
    {hits : List η} {lines : List ℓ} (first : List.Forall₂ R places hits)
    (second : List.Forall₂ S places lines) (tell : η × ℓ → τ) :
    List.Forall₂ (fun p told => ∃ hit line, R p hit ∧ S p line ∧ told = tell (hit, line)) places
      ((hits.zip lines).map tell) := by
  induction first generalizing lines with
  | nil =>
    cases second
    exact .nil
  | cons isHit hits ih =>
    cases second with
    | cons isLine lines => exact .cons ⟨_, _, isHit, isLine, rfl⟩ (ih lines)

end InStep

namespace Yaml

/-- The line of a marked scalar. -/
def Site.line (site : Site) : Option (Scalar × Nat) :=
  site.scalar.mark.map fun _ => (site.scalar, 1 + site.before.lineFeeds)

/-- Going over the pieces meets the marked scalars of the sites. -/
theorem markedLinesFrom_eq (before : Text) (segments : List Segment) :
    Piece.markedLinesFrom (1 + before.lineFeeds) (segments.flatMap Segment.pieces) =
      (sitesFrom before segments).filterMap Site.line := by
  induction segments generalizing before with
  | nil => rfl
  | cons segment segments ih =>
    cases segment with
    | chars t =>
      have others := ih (before ++ t)
      rw [lineFeeds_append, ← Nat.add_assoc] at others
      exact others
    | scalar role keys s =>
      have others := ih (before ++ Piece.print s.pieces)
      cases marked : s.mark <;>
        simpa [Scalar.pieces, marked, Piece.markedLinesFrom, sitesFrom, Site.line, lineFeeds_append,
          ← Nat.add_assoc] using others

theorem Stream.markedLines_eq (s : Stream) :
    Piece.markedLines s.pieces = s.sites.filterMap Site.line := by
  rw [s.pieces_eq]
  exact markedLinesFrom_eq [] s.segments

theorem Stream.hits_eq (s : Stream) :
    s.hits = s.sites.filterMap fun site => hitOf (site.keys, site.scalar) := by
  rw [Stream.hits, ← s.sites_eq, List.filterMap_map]
  rfl

/-- What is printed up to a site, its mark and its scalar begins what is printed in all. -/
theorem isPrefix_print_of_mem_sitesFrom {before : Text} {segments : List Segment} {site : Site}
    (inside : site ∈ sitesFrom before segments) {mark : Mark}
    (marked : site.scalar.mark = some mark) :
    site.before ++ mark.arrow ++ site.scalar.written <+:
      before ++ Piece.print (segments.flatMap Segment.pieces) := by
  induction segments generalizing before with
  | nil => cases inside
  | cons segment segments ih =>
    cases segment with
    | chars t =>
      have others : _ <+: (before ++ t) ++ _ := ih inside
      simpa using others
    | scalar role keys s =>
      rcases List.mem_cons.mp inside with rfl | inside
      · change s.mark = some mark at marked
        simp [Scalar.pieces, marked]
      · have others : _ <+: (before ++ Piece.print s.pieces) ++ _ := ih inside
        simpa using others

/-- The scalar at an address, with its mark. The mark and the scalar behind it are printed right
after the text in front of the address. -/
structure Stream.MarkedAt (s : Stream) (address : List Nat) (t : Scalar) (mark : Mark) : Prop where
  isScalar : s.nodeAt? address = some (.scalar t)
  isMarked : t.mark = some mark
  printed : s.textBefore address ++ t.lead ++ mark.arrow ++ t.written <+: s.print

/-- A hit is about the marked scalar at an address and the keys around it. -/
def Stream.IsHitAt (s : Stream) (address : List Nat) (hit : List Text × Scalar × Mark) : Prop :=
  s.MarkedAt address hit.2.1 hit.2.2 ∧ hit.1 = s.keysAt address

/-- A line is that of the mark on the scalar at an address. -/
def Stream.IsLineAt (s : Stream) (address : List Nat) (line : Scalar × Nat) : Prop :=
  (∃ mark, s.MarkedAt address line.1 mark) ∧
    line.2 = 1 + (s.textBefore address ++ line.1.lead).lineFeeds

/-- A match tells of the marked scalar at an address. -/
def Stream.IsToldAt (s : Stream) (path : Text) (address : List Nat) (told : SearchMatch) : Prop :=
  ∃ t mark, s.MarkedAt address t mark ∧
    told = ⟨path, Text.joinWith '.' (s.keysAt address), t.text, mark.description,
      1 + (s.textBefore address ++ t.lead).lineFeeds⟩

/-- There is a marked scalar at an address. -/
def Stream.HasMarkAt (s : Stream) (address : List Nat) : Prop :=
  ∃ t, s.nodeAt? address = some (.scalar t) ∧ t.mark.isSome

theorem Stream.markedAt_of_siteAt {s : Stream} {address : List Nat} {site : Site}
    (atSite : s.SiteAt address site) (inside : site ∈ s.sites) {mark : Mark}
    (marked : site.scalar.mark = some mark) : s.MarkedAt address site.scalar mark := by
  have printed := isPrefix_print_of_mem_sitesFrom inside marked
  rw [atSite.before_eq, List.nil_append, ← s.pieces_eq] at printed
  exact ⟨atSite.scalar, marked, printed⟩

theorem Stream.hasMarkAt_iff_of_siteAt {s : Stream} {address : List Nat} {site : Site}
    (atSite : s.SiteAt address site) : s.HasMarkAt address ↔ site.scalar.mark.isSome := by
  simp [Stream.HasMarkAt, atSite.scalar]

/-- The hits of a stream and the lines of its marks are about the marked scalars in the order of
their addresses. -/
theorem Stream.exists_inStep (s : Stream) :
    ∃ addresses, InStep s.HasMarkAt s.IsHitAt s.IsLineAt addresses s.hits
      (Piece.markedLines s.pieces) := by
  obtain ⟨all, ascending, listed, found⟩ := s.exists_addresses
  have listedOfMark (a : List Nat) (hasMark : s.HasMarkAt a) : a ∈ all :=
    (listed a).mpr (hasMark.imp fun _ isMarked => isMarked.1)
  have inStep : List.Forall₂ (fun a site => s.SiteAt a site ∧ site ∈ s.sites) all s.sites :=
    ((List.forall₂_and_left _ _).mpr ⟨fun _ inside => inside, found.flip⟩).flip.imp
      fun _ _ related => ⟨related.2, related.1⟩
  rw [s.hits_eq, s.markedLines_eq]
  refine exists_inStep_of_sites ascending listedOfMark inStep ?_ ?_ ?_ ?_
  · intro a site ⟨atSite, _⟩
    simp [hasMarkAt_iff_of_siteAt atSite, hitOf]
  · intro a site ⟨atSite, _⟩
    simp [hasMarkAt_iff_of_siteAt atSite, Site.line]
  · intro a site hit ⟨atSite, inside⟩ isHit
    obtain ⟨mark, marked, rfl⟩ := Option.map_eq_some_iff.mp isHit
    exact ⟨markedAt_of_siteAt atSite inside marked, atSite.keys_eq⟩
  · intro a site line ⟨atSite, inside⟩ isLine
    obtain ⟨mark, marked, rfl⟩ := Option.map_eq_some_iff.mp isLine
    exact ⟨⟨mark, markedAt_of_siteAt atSite inside marked⟩, by rw [atSite.before_eq]⟩

theorem Stream.isToldAt {s : Stream} {address : List Nat} {hit : List Text × Scalar × Mark}
    {line : Scalar × Nat} (path : Text) (isHit : s.IsHitAt address hit)
    (isLine : s.IsLineAt address line) :
    s.IsToldAt path address
      ⟨path, Text.joinWith '.' hit.1, hit.2.1.text, hit.2.2.description, line.2⟩ := by
  obtain ⟨marked, keys⟩ := isHit
  obtain ⟨⟨_, marked'⟩, count⟩ := isLine
  have same : line.1 = hit.2.1 :=
    Node.scalar.inj (Option.some.inj (marked'.isScalar.symm.trans marked.isScalar))
  exact ⟨_, _, marked, by rw [keys, count, same]⟩

end Yaml

/-! ## Properties files -/

namespace Properties

/-- A piece of content with what is printed in front of it. -/
def sitesFrom (before : Text) : List Content → List (Content × Text)
  | [] => []
  | c :: cs => (c, before) :: sitesFrom (before ++ Piece.print c.pieces) cs

def File.sites (f : File) : List (Content × Text) := sitesFrom [] f.content

/-- What a file prints in front of the value of the entry at a position. -/
def File.textBefore (f : File) (position : Nat) (e : Entry) : Text :=
  contentPrint (f.content.take position) ++ (e.lead ++ e.frame)

/-- The entry at a position, with the mark on its value. The mark and the value behind it are
printed right after the text in front of the value. -/
structure File.MarkedAt (f : File) (position : Nat) (e : Entry) (mark : Mark) : Prop where
  isEntry : f.content[position]? = some (.entry e)
  isMarked : e.value.mark = some mark
  printed : f.textBefore position e ++ mark.arrow ++ e.value.text <+: f.print

/-- A match tells of the entry at a position. -/
def File.IsToldAt (f : File) (path : Text) (position : Nat) (told : SearchMatch) : Prop :=
  ∃ e mark, f.MarkedAt position e mark ∧
    told = ⟨path, e.keyText, e.value.meaning, mark.description,
      1 + (f.textBefore position e).lineFeeds⟩

/-- There is an entry with a marked value at a position. -/
def File.HasMarkAt (f : File) (position : Nat) : Prop :=
  ∃ e, f.content[position]? = some (.entry e) ∧ e.value.mark.isSome

/-- A hit is about the entry at a position. -/
def File.IsHitAt (f : File) (position : Nat) (hit : Entry × Mark) : Prop :=
  f.MarkedAt position hit.1 hit.2

/-- A line is that of the mark on the value of the entry at a position. -/
def File.IsLineAt (f : File) (position : Nat) (line : Value × Nat) : Prop :=
  ∃ e mark, f.MarkedAt position e mark ∧ line = (e.value, 1 + (f.textBefore position e).lineFeeds)

/-- The mark on the value of an entry. -/
def Content.hit : Content → Option (Entry × Mark)
  | .entry e => e.value.mark.map fun mark => (e, mark)
  | .comment _ => none

/-- The line of a marked value. -/
def siteLine (site : Content × Text) : Option (Value × Nat) :=
  site.1.hit.map fun hit =>
    (hit.1.value, 1 + (site.2 ++ (hit.1.lead ++ hit.1.frame)).lineFeeds)

theorem Content.hit_eq_some {c : Content} {e : Entry} {mark : Mark} :
    c.hit = some (e, mark) ↔ c = .entry e ∧ e.value.mark = some mark := by
  cases c with
  | comment c => simp [Content.hit]
  | entry e' =>
    simp only [Content.hit, Option.map_eq_some_iff, Prod.mk.injEq, Content.entry.injEq]
    constructor
    · rintro ⟨_, marked, rfl, rfl⟩
      exact ⟨rfl, marked⟩
    · rintro ⟨rfl, marked⟩
      exact ⟨mark, marked, rfl, rfl⟩

/-- The pieces of content are the sites of the positions in turn. -/
theorem forall₂_sitesFrom (front back : List Content) :
    List.Forall₂ (fun i site => (front ++ back)[i]? = some site.1 ∧
        site.2 = contentPrint ((front ++ back).take i))
      (List.range' front.length back.length) (sitesFrom (contentPrint front) back) := by
  induction back generalizing front with
  | nil => exact .nil
  | cons c back ih =>
    have others := ih (front ++ [c])
    rw [contentPrint_append, List.append_assoc, List.length_append] at others
    refine .cons ⟨by simp, by simp⟩ ?_
    simpa using others

theorem markedLinesFrom_eq (before : Text) (cs : List Content) (tail : Text) :
    Piece.markedLinesFrom (1 + before.lineFeeds) (cs.flatMap Content.pieces ++ [.chars tail]) =
      (sitesFrom before cs).filterMap siteLine := by
  induction cs generalizing before with
  | nil => rfl
  | cons c cs ih =>
    have others := ih (before ++ Piece.print c.pieces)
    cases c with
    | comment c =>
      simpa [Content.pieces, Piece.markedLinesFrom, sitesFrom, siteLine, Content.hit,
        Yaml.lineFeeds_append, ← Nat.add_assoc] using others
    | entry e =>
      cases marked : e.value.mark <;>
        simpa [Content.pieces, Value.pieces, marked, Piece.markedLinesFrom, sitesFrom, siteLine,
          Content.hit, Entry.frame, Yaml.lineFeeds_append, ← Nat.add_assoc] using others

theorem map_fst_sitesFrom (before : Text) (cs : List Content) :
    (sitesFrom before cs).map Prod.fst = cs := by
  induction cs generalizing before with
  | nil => rfl
  | cons c cs ih => rw [sitesFrom, List.map_cons, ih]

theorem File.hits_eq (f : File) : f.hits = f.sites.filterMap fun site => site.1.hit := by
  have contents : f.content = f.sites.map Prod.fst := (map_fst_sitesFrom [] f.content).symm
  rw [File.hits, File.entries, List.filterMap_filterMap, contents, List.filterMap_map]
  refine List.filterMap_congr fun site _ => ?_
  cases h : site.1 <;> simp [h, Content.hit]

theorem File.markedAt_of_hit {f : File} {i : Nat} {c : Content} {e : Entry} {mark : Mark}
    (isContent : f.content[i]? = some c) (isHit : c.hit = some (e, mark)) :
    f.MarkedAt i e mark := by
  obtain ⟨rfl, marked⟩ := Content.hit_eq_some.mp isHit
  obtain ⟨below, here⟩ := List.getElem?_eq_some_iff.mp isContent
  have print : f.print = contentPrint (f.content.take i) ++
      (Piece.print (Content.entry e).pieces ++ contentPrint (f.content.drop (i + 1))) ++ f.tail := by
    rw [f.print_eq, ← contentPrint_cons, ← here, ← List.drop_eq_getElem_cons, ← contentPrint_append,
      List.take_append_drop]
  refine ⟨isContent, marked, ?_⟩
  rw [print]
  simp [File.textBefore, Content.pieces, Value.pieces, marked, Entry.frame]

/-- The hits of a file and the lines of its marks are about the entries with marked values in their
order. -/
theorem File.exists_inStep (f : File) :
    ∃ positions, InStep f.HasMarkAt f.IsHitAt f.IsLineAt positions f.hits
      (Piece.markedLines f.pieces) := by
  have ascending : (List.range' 0 f.content.length).Pairwise (· < ·) := List.pairwise_lt_range'
  have listed (i : Nat) (hasMark : f.HasMarkAt i) : i ∈ List.range' 0 f.content.length := by
    obtain ⟨e, isEntry, -⟩ := hasMark
    obtain ⟨below, -⟩ := List.getElem?_eq_some_iff.mp isEntry
    simpa using below
  have hasMark_iff (i : Nat) (c : Content) (isContent : f.content[i]? = some c) :
      c.hit.isSome ↔ f.HasMarkAt i := by
    cases c <;> simp [File.HasMarkAt, isContent, Content.hit]
  have lines : Piece.markedLines f.pieces = f.sites.filterMap siteLine :=
    markedLinesFrom_eq [] f.content f.tail
  rw [f.hits_eq, lines]
  refine exists_inStep_of_sites ascending listed (forall₂_sitesFrom [] f.content) ?_ ?_ ?_ ?_
  · intro i site ⟨isContent, _⟩
    exact hasMark_iff i site.1 isContent
  · intro i site ⟨isContent, _⟩
    rw [← hasMark_iff i site.1 isContent, siteLine, Option.isSome_map]
  · intro i site hit ⟨isContent, _⟩ isHit
    exact File.markedAt_of_hit isContent isHit
  · intro i site line ⟨isContent, before⟩ isLine
    obtain ⟨hit, isHit, rfl⟩ := Option.map_eq_some_iff.mp isLine
    exact ⟨hit.1, hit.2, File.markedAt_of_hit isContent isHit, by rw [before]; rfl⟩

theorem File.isToldAt {f : File} {position : Nat} {hit : Entry × Mark} {line : Value × Nat}
    (path : Text) (isHit : f.IsHitAt position hit) (isLine : f.IsLineAt position line) :
    f.IsToldAt path position
      ⟨path, hit.1.keyText, hit.1.value.meaning, hit.2.description, line.2⟩ := by
  obtain ⟨e, _, marked', rfl⟩ := isLine
  have same : e = hit.1 :=
    Content.entry.inj (Option.some.inj (marked'.isEntry.symm.trans isHit.isEntry))
  exact ⟨_, _, isHit, by rw [same]⟩

end Properties

/-- Hits and lines of a file never get out of step, whatever is marked and whatever the marks say:
they are about the same marked places one by one. So every match tells of one of these places, with
the line that its mark is printed on. In a stream it names the keys of all entries around it. -/
theorem SourceFile.searchMatches_inStep (id : NodeId) (path : Text) (markers : Markers) :
    (∀ s : Yaml.Stream, ∃ addresses,
      InStep s.HasMarkAt s.IsHitAt s.IsLineAt addresses s.hits (Piece.markedLines s.pieces) ∧
      s.hits.length = (Piece.markedLines s.pieces).length ∧
      List.Forall₂ (s.IsToldAt path) addresses
        (SourceFile.mk id path markers (.yaml s)).searchMatches) ∧
    ∀ f : Properties.File, ∃ positions,
      InStep f.HasMarkAt f.IsHitAt f.IsLineAt positions f.hits (Piece.markedLines f.pieces) ∧
      f.hits.length = (Piece.markedLines f.pieces).length ∧
      List.Forall₂ (f.IsToldAt path) positions
        (SourceFile.mk id path markers (.properties f)).searchMatches := by
  constructor
  · intro s
    obtain ⟨addresses, inStep⟩ := s.exists_inStep
    refine ⟨addresses, inStep, inStep.length_eq, ?_⟩
    refine (forall₂_map_zip inStep.hits inStep.lines _).imp ?_
    rintro address told ⟨hit, line, isHit, isLine, rfl⟩
    exact Yaml.Stream.isToldAt path isHit isLine
  · intro f
    obtain ⟨positions, inStep⟩ := f.exists_inStep
    refine ⟨positions, inStep, inStep.length_eq, ?_⟩
    refine (forall₂_map_zip inStep.hits inStep.lines _).imp ?_
    rintro position told ⟨hit, line, isHit, isLine, rfl⟩
    exact Properties.File.isToldAt path isHit isLine

end ConfigTree
