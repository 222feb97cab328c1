import ConfigTree.CommandLine.Project
import ConfigTree.Proofs.Properties.MarkingAgain
import ConfigTree.Proofs.Spring.FrameworkGate
import ConfigTree.Proofs.Spring.SearchSession
import ConfigTree.Proofs.Yaml.MarkingAgain

/-!
# Runs over many files, and over their own results

A search for properties does to each file what it does to that file alone, and it has nothing left
to do on its own results. What carries both is that a file is the node it was or prints another
text, so that nothing is reported twice and nothing is lost between the reports and the files.
-/

namespace ConfigTree

namespace FileContent

/-- Content whose nodes are of no later revision than its root. -/
def Coherent : FileContent → Prop
  | yaml s => s.Coherent
  | properties f => f.Coherent
  | text _ => True

/-- The content with a mark on every value whose key satisfies `p`. -/
def markByKey (p : Text → Bool) : FileContent → FileContent
  | yaml s => .yaml (s.markByKey p)
  | properties f => .properties (f.markByKey p)
  | text t => .text t

theorem coherent_of_parse {path t : Text} {c : FileContent} (h : parse path t = .ok c) :
    c.Coherent := by
  unfold parse at h
  simp only at h
  split at h
  · cases parsed : Yaml.parse t with
    | error e =>
      rw [parsed] at h
      contradiction
    | ok s =>
      rw [parsed] at h
      obtain rfl := Except.ok.inj h
      exact Yaml.Stream.coherent_of_parse parsed
  · split at h
    · obtain rfl := Except.ok.inj h
      exact Properties.File.coherent_parse t
    · obtain rfl := Except.ok.inj h
      trivial

variable {c : FileContent}

theorem Coherent.markByKey_markByKey (coherent : c.Coherent) (p : Text → Bool) :
    (c.markByKey p).markByKey p = c.markByKey p := by
  cases c with
  | yaml s => exact congrArg yaml (Yaml.Stream.Coherent.markByKey_markByKey coherent p)
  | properties f =>
    exact congrArg properties (Properties.File.Coherent.markByKey_markByKey coherent p)
  | text t => rfl

theorem Coherent.markByKey (coherent : c.Coherent) (p : Text → Bool) :
    (c.markByKey p).Coherent := by
  cases c with
  | yaml s => exact Yaml.Stream.Coherent.markByKey coherent p
  | properties f => exact Properties.File.Coherent.markByKey coherent p
  | text t => trivial

end FileContent

/-! ## Files -/

namespace SourceFile

/-- A file whose content is coherent. -/
def Coherent (s : SourceFile) : Prop := s.content.Coherent

theorem read_eq_ok {place : Nat} {path text : Text} {s : SourceFile}
    (h : read place path text = .ok s) : s.id = ⟨place, 0⟩ ∧ s.Coherent := by
  rw [read] at h
  split at h
  · rw [parsePom] at h
    cases pom : Maven.Pom.parse text with
    | error problem =>
      rw [pom] at h
      contradiction
    | ok pom' =>
      rw [pom] at h
      obtain rfl := Except.ok.inj h
      exact ⟨rfl, trivial⟩
  · rw [parse] at h
    cases parsed : FileContent.parse path text with
    | error e =>
      rw [parsed] at h
      contradiction
    | ok content =>
      rw [parsed] at h
      obtain rfl := Except.ok.inj h
      exact ⟨rfl, FileContent.coherent_of_parse parsed⟩

variable {p : Text → Bool} {s : SourceFile}

/-- A file that is searched is the file it was, or another one with a longer text. -/
theorem Coherent.markByKey_eq (coherent : s.Coherent) (p : Text → Bool) :
    (s.content.markByKey p = s.content ∧ s.markByKey p = s) ∨
      (s.content.print.length < (s.content.markByKey p).print.length ∧ s.markByKey p =
        { s with id := s.id.revised s.nextRevision, content := s.content.markByKey p }) := by
  obtain ⟨id, path, markers, content⟩ := s
  cases content with
  | yaml stream =>
    rcases Yaml.Stream.Coherent.staysOrGrows coherent p with kept | ⟨different, longer⟩
    · exact .inl ⟨congrArg FileContent.yaml kept, if_pos (congrArg _ kept)⟩
    · exact .inr ⟨longer, if_neg different⟩
  | properties file =>
    rcases Properties.File.Coherent.staysOrGrows coherent p with kept | ⟨different, longer⟩
    · refine .inl ⟨congrArg FileContent.properties kept, ?_⟩
      simp [markByKey, mapProperties, mapYaml, kept]
    · refine .inr ⟨longer, ?_⟩
      simp [markByKey, mapProperties, mapYaml, different, FileContent.markByKey]
  | text t => exact .inl ⟨rfl, rfl⟩

theorem Coherent.staysOrGrows (coherent : s.Coherent) (p : Text → Bool) :
    StaysOrGrows id print s (s.markByKey p) := by
  refine (coherent.markByKey_eq p).imp And.right fun ⟨longer, rebuilt⟩ => ?_
  rw [rebuilt]
  exact ⟨NodeId.revised_ne (Nat.ne_of_lt (Nat.lt_succ_self _)), longer⟩

theorem Coherent.content_markByKey (coherent : s.Coherent) (p : Text → Bool) :
    (s.markByKey p).content = s.content.markByKey p := by
  rcases coherent.markByKey_eq p with ⟨same, kept⟩ | ⟨-, rebuilt⟩
  · rw [kept, same]
  · rw [rebuilt]

theorem Coherent.markByKey (coherent : s.Coherent) (p : Text → Bool) :
    (s.markByKey p).Coherent := by
  rw [Coherent, coherent.content_markByKey]
  exact FileContent.Coherent.markByKey coherent p

/-- Searching again finds every mark in place. -/
theorem Coherent.markByKey_markByKey (coherent : s.Coherent) (p : Text → Bool) :
    (s.markByKey p).markByKey p = s.markByKey p := by
  rcases (coherent.markByKey p).markByKey_eq p with ⟨-, kept⟩ | ⟨longer, -⟩
  · exact kept
  · rw [coherent.content_markByKey, FileContent.Coherent.markByKey_markByKey coherent] at longer
    exact absurd longer (Nat.lt_irrefl _)

/-- A search leaves path and markers alone. -/
theorem Coherent.path_markers (coherent : s.Coherent) (p : Text → Bool) :
    (s.markByKey p).path = s.path ∧ (s.markByKey p).markers = s.markers := by
  rcases coherent.markByKey_eq p with ⟨-, kept⟩ | ⟨-, rebuilt⟩
  · rw [kept]
    exact ⟨rfl, rfl⟩
  · rw [rebuilt]
    exact ⟨rfl, rfl⟩

end SourceFile

namespace CommandLine

theorem StoredFile.read_of_source? {f : StoredFile} {place : Nat} {s : SourceFile}
    (h : f.source? place = some s) : ∃ text, SourceFile.read place f.path text = .ok s := by
  unfold source? at h
  split at h
  · obtain ⟨text, -, read⟩ := Option.bind_eq_some_iff.mp h
    refine ⟨text, ?_⟩
    cases isRead : SourceFile.read place f.path text with
    | error problem =>
      rw [isRead] at read
      contradiction
    | ok s' =>
      rw [isRead] at read
      exact congrArg Except.ok (Option.some.inj read)
  · contradiction

/-- The files of a project are coherent, and different nodes. -/
theorem coherent_loadProject (fs : List StoredFile) :
    (∀ s ∈ loadProject fs, s.Coherent) ∧
      (loadProject fs).Pairwise fun s t => s.same t = false := by
  constructor
  · intro s isFile
    obtain ⟨⟨f, place⟩, -, isSource⟩ := List.mem_filterMap.mp isFile
    obtain ⟨text, read⟩ := StoredFile.read_of_source? isSource
    exact (SourceFile.read_eq_ok read).2
  · have places : (fs.zipIdx.map Prod.snd).Nodup := by
      rw [List.zipIdx_map_snd]
      exact List.nodup_range'
    refine (List.pairwise_map.mp places).filterMap _ fun (f, place) (g, place') other s isSource
      t isSource' => ?_
    obtain ⟨text, read⟩ := StoredFile.read_of_source? isSource
    obtain ⟨text', read'⟩ := StoredFile.read_of_source? isSource'
    simpa [SourceFile.same, (SourceFile.read_eq_ok read).1, (SourceFile.read_eq_ok read').1]
      using other

end CommandLine

theorem Precondition.holds_congr {s t : SourceFile} (path : t.path = s.path)
    (markers : t.markers = s.markers) (c : Precondition) : c.holds t = c.holds s := by
  induction c with
  | sourceSet name => rw [holds, holds, markers]
  | path pattern => rw [holds, holds, path]
  | both first second ih ih' => rw [holds, holds, ih, ih']

namespace Recipe

variable {α : Type} {visit : SourceFile → SourceFile} {files : List SourceFile}

theorem change?_eq_none {s : SourceFile} :
    change? visit s = none ↔ (visit s).same s = true := by
  simp [change?]

theorem change?_eq_some {s : SourceFile} {c : FileChange} :
    change? visit s = some c ↔ (visit s).same s = false ∧ c = ⟨s, visit s⟩ := by
  rw [change?]
  split
  · next same => simp [same]
  · next other =>
    rw [Option.some.injEq]
    exact ⟨fun eq => ⟨Bool.eq_false_of_not_eq_true other, eq.symm⟩, fun h => h.2.symm⟩

/-- Among files that are different nodes each is found by its identity. -/
theorem eq_of_same (different : files.Pairwise fun s t => s.same t = false) {s t : SourceFile}
    (isFile : s ∈ files) (isFile' : t ∈ files) (same : s.same t = true) : s = t := by
  have nodup : (files.map SourceFile.id).Nodup := by
    refine List.pairwise_map.mpr (different.imp fun other => ?_)
    simpa [SourceFile.same] using other
  exact List.inj_on_of_nodup_map nodup isFile isFile' (by simpa [SourceFile.same] using same)

/-- The change to one of the files is found among all changes. -/
theorem find?_changes (different : files.Pairwise fun s t => s.same t = false) {s : SourceFile}
    (isFile : s ∈ files) :
    (changes visit files).find? (fun c => c.before.same s) = change? visit s := by
  have self : s.same s = true := beq_self_eq_true s.id
  cases changed : change? visit s with
  | none =>
    refine List.find?_eq_none.mpr fun c isChange same => ?_
    rw [changes_eq] at isChange
    obtain ⟨t, isFile', isChange⟩ := List.mem_filterMap.mp isChange
    rw [before_of_change? isChange] at same
    rw [eq_of_same different isFile' isFile same, changed] at isChange
    contradiction
  | some c =>
    have isChange : c ∈ changes visit files := by
      rw [changes_eq]
      exact List.mem_filterMap.mpr ⟨s, isFile, changed⟩
    have found : ((changes visit files).find? fun c => c.before.same s).isSome = true := by
      refine List.find?_isSome.mpr ⟨c, isChange, ?_⟩
      rw [before_of_change? changed]
      exact self
    obtain ⟨c', found⟩ := Option.isSome_iff_exists.mp found
    have isChange' := List.mem_of_find?_eq_some found
    rw [changes_eq] at isChange'
    obtain ⟨t, isFile', changed'⟩ := List.mem_filterMap.mp isChange'
    have same := List.find?_some found
    rw [before_of_change? changed'] at same
    rw [found, ← changed, ← eq_of_same different isFile' isFile same, changed']

/-- Files that are different nodes each come to what the visit makes of them. -/
theorem apply_changes (different : files.Pairwise fun s t => s.same t = false)
    (exact : ∀ s ∈ files, (visit s).same s = true → visit s = s) (warnings : List Text) :
    (⟨changes visit files, warnings⟩ : RecipeRun).apply files = files.map visit := by
  refine List.map_congr_left fun s isFile => ?_
  simp only [find?_changes different isFile, change?]
  by_cases same : (visit s).same s = true
  · rw [if_pos same]
    exact (exact s isFile same).symm
  · rw [if_neg same]

/-- How a run of a recipe over many files stands to one of them and to what became of it. -/
structure RunOn (r : Recipe α) (run : RecipeRun) (s t : SourceFile) : Prop where
  /-- A run over this file alone makes the same of it. -/
  alone : ∃ alone, r.run [s] = .ok alone ∧ alone.apply [s] = [t]
  /-- The file stays the node it is if and only if the run does not report it. -/
  same_iff : t.same s = true ↔ ∀ c ∈ run.changes, c.before.same s = false
  kept : t.same s = true → t = s

end Recipe

namespace Spring

variable {q : PropertyQuery} {files : List SourceFile}

/-- What a query makes of a file. -/
theorem markConfig_staysOrGrows {s : SourceFile} (coherent : s.Coherent) (q : PropertyQuery) :
    StaysOrGrows SourceFile.id SourceFile.print s (q.markConfig s) := by
  rw [PropertyQuery.markConfig]
  split
  · exact coherent.staysOrGrows _
  · exact .inl rfl

theorem markConfig_eq_of_same {s : SourceFile} (coherent : s.Coherent)
    (same : (q.markConfig s).same s = true) : q.markConfig s = s := by
  refine (markConfig_staysOrGrows coherent q).resolve_right fun different => different.1 ?_
  simpa [SourceFile.same] using same

theorem coherent_markConfig {s : SourceFile} (coherent : s.Coherent) :
    (q.markConfig s).Coherent := by
  rw [PropertyQuery.markConfig]
  split
  · exact coherent.markByKey _
  · exact coherent

/-- A query finds nothing new in a file in which it has marked what it asks for. -/
theorem markConfig_markConfig {s : SourceFile} (coherent : s.Coherent) :
    q.markConfig (q.markConfig s) = q.markConfig s := by
  by_cases config : applicationConfig.holds s = true
  · have marked : q.markConfig s = s.markByKey q.matcher.isMatch := if_pos config
    obtain ⟨path, markers⟩ := coherent.path_markers q.matcher.isMatch
    rw [marked, PropertyQuery.markConfig, Precondition.holds_congr path markers, if_pos config]
    exact coherent.markByKey_markByKey _
  · have kept : q.markConfig s = s := if_neg config
    rw [kept, kept]

/-- A search over files that are different nodes has a file for each file, in their order: what a
search of this file alone makes of it, and the very file if it is not reported. Each report is
of a file that prints another text than before. There are no warnings, and a search of the results
reports nothing. One searcher for all files, which keeps the keys that it is inside of, finds the
same. -/
theorem findProperty_again (valid : (findProperty q).problem? = none)
    (coherent : ∀ s ∈ files, s.Coherent)
    (different : files.Pairwise fun s t => s.same t = false) :
    ∃ run, (findProperty q).run files = .ok run ∧
      List.Forall₂ ((findProperty q).RunOn run) files (run.apply files) ∧
      (∀ c ∈ run.changes, c.before.print ≠ c.after.print) ∧
      run.warnings = [] ∧
      (∃ again, (findProperty q).run (run.apply files) = .ok again ∧ again.changes = []) ∧
      (∀ t ∈ run.apply files, t.Coherent) ∧
      (q.searchAll files).run [] = (run.changes, []) := by
  have applied := Recipe.apply_changes different
    (fun s isFile => markConfig_eq_of_same (q := q) (coherent s isFile)) []
  refine ⟨_, run_findProperty valid files, ?_, ?_, rfl, ?_, ?_, q.run_searchAll files⟩
  · rw [applied, List.forall₂_map_right_iff, List.forall₂_same]
    intro s isFile
    have kept := markConfig_eq_of_same (q := q) (coherent s isFile)
    refine ⟨⟨_, run_findProperty valid [s], ?_⟩, ?_, kept⟩
    · exact Recipe.apply_changes (List.pairwise_singleton _ _) (by simpa using kept) []
    · rw [← Recipe.change?_eq_none, ← Recipe.find?_changes different isFile, List.find?_eq_none]
      simp only [Bool.not_eq_true]
  · intro c isChange same
    rw [Recipe.changes_eq] at isChange
    obtain ⟨s, isFile, isChange⟩ := List.mem_filterMap.mp isChange
    obtain ⟨changed, rfl⟩ := Recipe.change?_eq_some.mp isChange
    rcases markConfig_staysOrGrows (coherent s isFile) q with kept | ⟨-, longer⟩
    · simp [kept, SourceFile.same] at changed
    · exact absurd (congrArg List.length same) (Nat.ne_of_lt longer)
  · refine ⟨_, run_findProperty valid _, ?_⟩
    rw [applied]
    refine Recipe.changes_of_same (List.forall_mem_map.mpr fun s isFile => ?_)
    exact markConfig_markConfig (coherent s isFile)
  · rw [applied]
    exact List.forall_mem_map.mpr fun s isFile => coherent_markConfig (coherent s isFile)

/-- A project with configuration in both formats, in a file for each profile. -/
def mixedFiles : List CommandLine.StoredFile :=
  [⟨["src", "main", "resources", "application.yml"].map String.toList,
      some "a: 1\nb:\n- a: [2]\n".toList⟩,
    ⟨["src", "main", "resources", "application-dev.properties"].map String.toList,
      some "# a\na = 3\n".toList⟩,
    ⟨["src", "test", "resources", "application.yml"].map String.toList, some "a: 4\n".toList⟩]

/-- Values in both formats are found, once, and the configuration of the tests is left alone. -/
theorem findProperty_again_mixedFiles :
    let files := CommandLine.loadProject mixedFiles
    ∃ run, (findProperty ⟨['a'], none⟩).run files = .ok run ∧
      (run.apply files).map SourceFile.print =
        ["a: ~~>1\nb:\n- a: [2]\n".toList, "# a\na = ~~>3\n".toList, "a: 4\n".toList] ∧
      ∃ again, (findProperty ⟨['a'], none⟩).run (run.apply files) = .ok again ∧
        again.changes = [] := by
  intro files
  have valid : (findProperty ⟨['a'], none⟩).problem? = none := by decide +kernel
  obtain ⟨coherent, different⟩ := CommandLine.coherent_loadProject mixedFiles
  obtain ⟨run, isRun, -, -, -, again, -⟩ := findProperty_again valid coherent different
  refine ⟨run, isRun, ?_, again⟩
  have prints : ((findProperty ⟨['a'], none⟩).run files).toOption.map
      (fun run => (run.apply files).map SourceFile.print) =
        some ["a: ~~>1\nb:\n- a: [2]\n".toList, "# a\na = ~~>3\n".toList, "a: 4\n".toList] := by
    decide +kernel
  rw [isRun] at prints
  exact Option.some.inj prints

end Spring

end ConfigTree
