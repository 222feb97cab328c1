import ConfigTree.Proofs.Yaml.GoingOver
import ConfigTree.Spring.SearchSession

/-!
# One searcher for all files

A searcher leaves every node with the keys with which it came to it, so that at each value it has
the keys of the entries around the value, in whichever file it is. A search with one searcher for
all files is a search of each file by itself.
-/

namespace ConfigTree

theorem Searching.run_atMatch (p : Text → Bool) (keys : List Text) :
    (Searching.atMatch p).run keys =
      pure (!keys.isEmpty && p (Text.joinWith '.' keys), keys) := rfl

namespace Yaml

variable {p : Text → Bool} {revision : Nat}

/-- At an entry the searcher takes its key with it, and leaves it behind. -/
theorem Walker.run_searching_entry {e : Entry} {inside : Searching Node} {visited : Node}
    {keys : List Text}
    (below : inside.run (keys ++ [e.key.text]) = pure (visited, keys ++ [e.key.text])) :
    (Walker.searching p revision inside (.entry e)).run keys =
      pure (markingValues p revision keys (.entry e) visited, keys) := by
  cases isValue : e.value with
  | scalar s =>
    by_cases found : p (Text.joinWith '.' (keys ++ [e.key.text])) = true <;>
      simp [Walker.searching, markingValues, isValue, found, below, Searching.run_atMatch]
  | mapping m => simp [Walker.searching, markingValues, isValue, below]
  | sequence o => simp [Walker.searching, markingValues, isValue, below]

/-- At an item the searcher has the keys around it. -/
theorem Walker.run_searching_item {i : Item} {inside : Searching Node} {visited : Node}
    {keys : List Text} (below : inside.run keys = pure (visited, keys)) :
    (Walker.searching p revision inside (.item i)).run keys =
      pure (markingValues p revision keys (.item i) visited, keys) := by
  cases isValue : i.value with
  | scalar s =>
    by_cases found : keys ≠ [] ∧ p (Text.joinWith '.' keys) = true
    · simp [Walker.searching, markingValues, isValue, found, Searching.run_atMatch]
    · have notFound : (!keys.isEmpty && p (Text.joinWith '.' keys)) = false := by
        simpa using found
      simp [Walker.searching, markingValues, isValue, found, notFound, below,
        Searching.run_atMatch]
  | mapping m => simp [Walker.searching, markingValues, isValue, below]
  | sequence o => simp [Walker.searching, markingValues, isValue, below]

/-- The searcher marks what the visitor marks, and leaves the keys that it finds. -/
theorem Node.run_searching (n : Node) (keys : List Text) :
    (n.walk (.searching p revision) revision).run keys =
      pure (n.visit (markingValues p revision) revision keys, keys) := by
  induction n using Node.induction generalizing keys with
  | step n ih =>
    have inside : (n.walkInside (.searching p revision) revision).run (keys ++ n.ownKeys) =
        pure (n.visitInside (markingValues p revision) revision keys, keys ++ n.ownKeys) := by
      have each (place : Slot × Node) (isSlot : place ∈ n.slots) :
          (place.1.settle place.2 <$> place.2.walk (.searching p revision) revision).run
              (keys ++ n.ownKeys) =
            pure (place.1.settle place.2 (place.2.visit (markingValues p revision) revision
              (keys ++ n.ownKeys)), keys ++ n.ownKeys) := by
        rw [StateT.run_map, ih place.2 (mem_children_of_slots isSlot), map_pure]
      rw [walkInside_eq, StateT.run_map,
        run_mapM (fun _ => keys ++ n.ownKeys) fun place isSlot _ => each place isSlot, map_pure,
        visitInside_eq]
    cases n with
    | entry e => exact Walker.run_searching_entry inside
    | item i =>
      simp only [ownKeys, List.append_nil] at inside
      exact Walker.run_searching_item inside
    | document | mapping | sequence | scalar =>
      simp only [ownKeys, List.append_nil] at inside
      exact inside

theorem Document.run_searching (revision : Nat) (d : Document) :
    (d.walk (.searching p revision) revision).run [] =
      pure (d.visit (markingValues p revision) revision, []) := by
  rw [Node.document_walk, StateT.run_map, Node.run_searching, map_pure]
  rfl

theorem Stream.run_searching (s : Stream) :
    (s.walk (.searching p s.nextRevision)).run [] = pure (s.markByKey p, []) := by
  have documents := run_mapM (l := s.documents) (fun _ => ([] : List Text))
    fun d _ _ => Document.run_searching (p := p) s.nextRevision d
  rw [Stream.walk, ← map_eq_pure_bind, StateT.run_map, documents, map_pure]
  rfl

end Yaml

theorem SourceFile.run_searchByKey (p : Text → Bool) (s : SourceFile) :
    (s.searchByKey p).run [] = pure (s.markByKey p, []) := by
  rw [searchByKey, markByKey, mapYamlM, mapYaml]
  cases content : (s.mapProperties (·.markByKey p)).content with
  | yaml stream =>
    simp only [StateT.run_bind, Yaml.Stream.run_searching, pure_bind, StateT.run_pure, mapYaml,
      content]
  | properties file => rfl
  | text t => rfl

namespace Spring

theorem PropertyQuery.run_searchConfig (q : PropertyQuery) (s : SourceFile) :
    (q.searchConfig s).run [] = pure (q.markConfig s, []) := by
  rw [searchConfig, markConfig]
  split
  · exact s.run_searchByKey _
  · rfl

/-- One searcher for all files makes the changes that are made to each file by itself, and has no
keys left. -/
theorem PropertyQuery.run_searchAll (q : PropertyQuery) (files : List SourceFile) :
    (q.searchAll files).run [] = pure (Recipe.changes q.markConfig files, []) := by
  rw [searchAll, Recipe.changes]
  induction files with
  | nil => rfl
  | cons s files ih =>
    simp only [Recipe.changesM, StateT.run_bind, run_searchConfig, pure_bind, ih, StateT.run_pure,
      List.filterMap_cons]
    split <;> rfl

end Spring

end ConfigTree
