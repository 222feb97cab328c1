import ConfigTree.PropertySearch
import ConfigTree.Proofs.Growing

/-!
# Marking a properties file that has marks

What holds of YAML trees holds of properties files as well: a file that is searched by key is the
file it was or prints a longer text, and searching again changes nothing.
-/

namespace ConfigTree.Properties

/-- The nodes of a piece of content: the piece itself, and the value of an entry. -/
def Content.ids : Content → List NodeId
  | .entry e => [e.id, e.value.id]
  | .comment c => [c.id]

/-- A file with no node of a later revision than its own, so that the nodes of the next revision
are new. -/
def File.Coherent (f : File) : Prop :=
  ∀ c ∈ f.content, ∀ id ∈ c.ids, id.revision ≤ f.id.revision

theorem numberedContent_ids {n : Nat} {cs : List Content} :
    ∀ c ∈ numberedContent n cs, ∀ id ∈ c.ids, id.revision = 0 := by
  induction cs generalizing n with
  | nil => simp [numberedContent]
  | cons c cs ih =>
    cases c with
    | entry e =>
      rw [numberedContent]
      exact List.forall_mem_cons.mpr ⟨by simp [Content.ids], ih⟩
    | comment c =>
      rw [numberedContent]
      exact List.forall_mem_cons.mpr ⟨by simp [Content.ids], ih⟩

theorem File.coherent_parse (text : Text) : (parse text).Coherent := by
  intro c inside id isId
  rw [numberedContent_ids c inside id isId]
  exact Nat.zero_le _

/-- The content with a mark on its value, if it is an entry with a key that satisfies `p`. -/
def Content.markedByKey (p : Text → Bool) (revision : Nat) : Content → Content
  | .entry e =>
    .entry (if p e.keyText then e.withValue revision (e.value.withMark revision {}) else e)
  | .comment c => .comment c

section

variable {p : Text → Bool} {revision : Nat}

theorem File.markByKey_eq (f : File) :
    f.markByKey p =
      f.withContent f.nextRevision (f.content.map (Content.markedByKey p f.nextRevision)) := by
  rw [markByKey, mapEntries]
  congr 2

/-- An entry is marked, unless it has a mark. -/
theorem Entry.withMark_eq {e : Entry} (older : e.value.id.revision ≠ revision) (mark : Mark) :
    e.withValue revision (e.value.withMark revision mark) =
      if e.value.mark = none then
        { e with
          id := e.id.revised revision
          value := { e.value with id := e.value.id.revised revision, mark := some mark } }
      else e := by
  cases marked : e.value.mark with
  | none =>
    rw [Value.withMark, marked, withValue, if_neg (NodeId.revised_ne older), if_pos rfl]
  | some first =>
    rw [Value.withMark, marked, withValue, if_pos rfl, if_neg (Option.some_ne_none _)]

theorem Entry.withMark_of_marked {e : Entry} (marked : e.value.mark ≠ none) (revision : Nat)
    (mark : Mark) : e.withValue revision (e.value.withMark revision mark) = e := by
  obtain ⟨first, marked⟩ := Option.ne_none_iff_exists'.mp marked
  rw [Value.withMark, marked, withValue, if_pos rfl]

/-- A marked entry keeps its key. -/
theorem Entry.keyText_withMark {e : Entry} (older : e.value.id.revision ≠ revision)
    (mark : Mark) :
    (e.withValue revision (e.value.withMark revision mark)).keyText = e.keyText ∧
      (e.withValue revision (e.value.withMark revision mark)).value.mark ≠ none := by
  rw [Entry.withMark_eq older]
  split
  · exact ⟨rfl, Option.some_ne_none _⟩
  · exact ⟨rfl, ‹_›⟩

/-- The text of a piece of content. -/
def Content.print (c : Content) : Text := Piece.print c.pieces

/-- Content that is searched is the content it was, or is another one with a longer text. -/
theorem Content.staysOrGrows {c : Content} (older : ∀ id ∈ c.ids, id.revision ≠ revision) :
    StaysOrGrows Content.id Content.print c (c.markedByKey p revision) := by
  cases c with
  | comment c => exact .inl rfl
  | entry e =>
    obtain ⟨entryOlder, valueOlder⟩ :
        e.id.revision ≠ revision ∧ e.value.id.revision ≠ revision := by
      simpa [ids] using older
    rw [markedByKey, Entry.withMark_eq valueOlder]
    split
    · split
      · next unmarked =>
        refine .inr ⟨NodeId.revised_ne entryOlder, ?_⟩
        have arrow := Mark.length_arrow_pos {}
        simp [Content.print, Content.pieces, Value.pieces, unmarked]
        omega
      · exact .inl rfl
    · exact .inl rfl

/-- Searching again finds the mark in place. -/
theorem Content.markedByKey_again {revision' : Nat} {c : Content}
    (older : ∀ id ∈ c.ids, id.revision ≠ revision) :
    (c.markedByKey p revision).markedByKey p revision' = c.markedByKey p revision := by
  cases c with
  | comment c => rfl
  | entry e =>
    have valueOlder : e.value.id.revision ≠ revision := older _ (by simp [ids])
    rw [markedByKey, markedByKey]
    congr 1
    by_cases found : p e.keyText = true
    · obtain ⟨key, marked⟩ := Entry.keyText_withMark valueOlder {}
      rw [if_pos found, key, if_pos found, Entry.withMark_of_marked marked]
    · rw [if_neg found, if_neg found]

/-- The nodes of marked content are nodes that were there or belong to the revision of the mark. -/
theorem Content.ids_markedByKey {c : Content} (older : ∀ id ∈ c.ids, id.revision ≠ revision)
    {id : NodeId} (inside : id ∈ (c.markedByKey p revision).ids) :
    id ∈ c.ids ∨ id.revision = revision := by
  cases c with
  | comment c => exact .inl inside
  | entry e =>
    have valueOlder : e.value.id.revision ≠ revision := older _ (by simp [ids])
    rw [markedByKey, Entry.withMark_eq valueOlder] at inside
    split at inside
    · split at inside
      · right
        simp only [ids, List.mem_cons, List.not_mem_nil, or_false] at inside
        rcases inside with rfl | rfl <;> rfl
      · exact .inl inside
    · exact .inl inside

end

namespace File

variable {p : Text → Bool} {f : File}

theorem length_print (f : File) :
    f.print.length = (f.content.map (·.print.length)).sum + f.tail.length := by
  simp [File.print, File.pieces, Piece.print, List.flatMap_assoc, List.length_flatMap,
    Content.print]

theorem Coherent.older (coherent : f.Coherent) :
    ∀ c ∈ f.content, ∀ id ∈ c.ids, id.revision ≠ f.nextRevision :=
  fun c inside id isId => Nat.ne_of_lt (Nat.lt_succ_of_le (coherent c inside id isId))

/-- A file whose content is searched is the file it was or is rebuilt. -/
theorem Coherent.kept_or_rebuilt (coherent : f.Coherent) (p : Text → Bool) :
    (f.content.map (Content.markedByKey p f.nextRevision) = f.content ∧ f.markByKey p = f) ∨
      ((f.content.map (·.print.length)).sum <
      ((f.content.map (Content.markedByKey p f.nextRevision)).map (·.print.length)).sum ∧
        f.markByKey p = { f with
          id := f.id.revised f.nextRevision
          content := f.content.map (Content.markedByKey p f.nextRevision) }) := by
  rw [markByKey_eq]
  rcases map_staysOrGrows fun c inside => Content.staysOrGrows (p := p) (coherent.older c inside)
    with same | ⟨different, longer⟩
  · exact .inl ⟨same, if_pos (congrArg _ same)⟩
  · exact .inr ⟨longer, if_neg different⟩

/-- A file that is searched is the file it was, or is another one with a longer text. -/
theorem Coherent.staysOrGrows (coherent : f.Coherent) (p : Text → Bool) :
    StaysOrGrows File.id File.print f (f.markByKey p) := by
  refine (coherent.kept_or_rebuilt p).imp And.right fun ⟨longer, rebuilt⟩ => ⟨?_, ?_⟩
  · rw [rebuilt]
    exact NodeId.revised_ne (Nat.ne_of_lt (Nat.lt_succ_self _))
  · rw [length_print, length_print, rebuilt]
    exact Nat.add_lt_add_right longer _

theorem Coherent.content_markByKey (coherent : f.Coherent) (p : Text → Bool) :
    (f.markByKey p).content = f.content.map (Content.markedByKey p f.nextRevision) := by
  rcases coherent.kept_or_rebuilt p with ⟨same, kept⟩ | ⟨-, rebuilt⟩
  · rw [kept, same]
  · rw [rebuilt]

/-- Searching again finds every mark in place. -/
theorem Coherent.markByKey_markByKey (coherent : f.Coherent) (p : Text → Bool) :
    (f.markByKey p).markByKey p = f.markByKey p := by
  have again (revision : Nat) :
      (f.markByKey p).content.map (Content.markedByKey p revision) = (f.markByKey p).content := by
    rw [coherent.content_markByKey, List.map_map]
    exact List.map_congr_left fun c inside => Content.markedByKey_again (coherent.older c inside)
  rw [markByKey_eq (f.markByKey p), withContent, if_pos (congrArg _ (again _))]

theorem Coherent.markByKey (coherent : f.Coherent) (p : Text → Bool) :
    (f.markByKey p).Coherent := by
  rcases coherent.kept_or_rebuilt p with ⟨-, kept⟩ | ⟨-, rebuilt⟩
  · rw [kept]
    exact coherent
  · intro c inside id isId
    rw [rebuilt] at inside ⊢
    obtain ⟨c, isContent, rfl⟩ := List.mem_map.mp inside
    rcases Content.ids_markedByKey (coherent.older c isContent) isId with old | new
    · exact Nat.le_succ_of_le (coherent c isContent id old)
    · exact Nat.le_of_eq new

end File

end ConfigTree.Properties
