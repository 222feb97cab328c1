import ConfigTree.Spring.Recipes
import Mathlib.Data.List.Perm.Basic

/-!
# Marking where the framework is in use

What a run finds depends on the files in two ways: on each file by itself, and on what the scan of
all files has gathered. The search for properties under a version of the framework gathers one bit,
whether some build file runs with a selected version. So its run is the run of the plain search or
changes nothing, and the order of the files shows in the order of its results only.
-/

namespace ConfigTree

namespace Recipe

variable {α : Type}

/-- A scan whose warnings do not depend on what is known: what is known is gathered file by file,
and the warnings come one file after the other. -/
theorem scanAll_eq {r : Recipe α} (gather : α → SourceFile → α) (warn : SourceFile → List Text)
    (scan : ∀ known s, r.scan known s = (gather known s, warn s)) (known : α)
    (files : List SourceFile) :
    r.scanAll known files = (files.foldl gather known, files.flatMap warn) := by
  induction files generalizing known with
  | nil => rfl
  | cons s files ih => simp only [scanAll, scan, ih, List.foldl_cons, List.flatMap_cons]

/-- The change that a visit makes to a file, if it makes one. -/
def change? (visit : SourceFile → SourceFile) (s : SourceFile) : Option FileChange :=
  if (visit s).same s then none else some ⟨s, visit s⟩

theorem changes_eq (visit : SourceFile → SourceFile) (files : List SourceFile) :
    changes visit files = files.filterMap (change? visit) := rfl

theorem before_of_change? {visit : SourceFile → SourceFile} {s : SourceFile} {c : FileChange}
    (h : change? visit s = some c) : c.before = s := by
  unfold change? at h
  split at h
  · contradiction
  · rw [← Option.some.inj h]

/-- A visit that leaves every file alone changes nothing. -/
theorem changes_of_same {visit : SourceFile → SourceFile} {files : List SourceFile}
    (kept : ∀ s ∈ files, visit s = s) : changes visit files = [] := by
  rw [changes_eq, List.filterMap_eq_nil_iff]
  intro s isFile
  rw [change?, kept s isFile, SourceFile.same, beq_self_eq_true, if_pos rfl]

/-- A run of a recipe with proper options. -/
theorem run_eq {r : Recipe α} (gather : α → SourceFile → α) (warn : SourceFile → List Text)
    (scan : ∀ known s, r.scan known s = (gather known s, warn s)) (valid : r.problem? = none)
    (files : List SourceFile) :
    r.run files =
      .ok ⟨changes (r.visit (files.foldl gather r.start)) files, files.flatMap warn⟩ := by
  simp only [run, valid, scanAll_eq gather warn scan]

end Recipe

theorem foldl_or {α : Type} (p : α → Bool) (known : Bool) (l : List α) :
    l.foldl (fun known a => known || p a) known = (known || l.any p) := by
  induction l generalizing known with
  | nil => simp
  | cons a l ih => rw [List.foldl_cons, ih, List.any_cons, Bool.or_assoc]

theorem Glob.Matcher.isMatch_ofText {name : Text} (literal : '*' ∉ name ∧ '?' ∉ name)
    (text : Text) : (ofText name).isMatch text = true ↔ text = name := by
  have plain : ofText name = .exact name := by
    rw [ofText, if_neg]
    simpa using literal
  rw [plain, isMatch, beq_iff_eq, eq_comm]

/-- Names without wildcards find the dependencies that have them. -/
theorem Maven.Resolution.mem_findDependencies {r : Resolution} (group artifact : Text)
    {scope : Scope} (literalGroup : '*' ∉ group ∧ '?' ∉ group)
    (literalArtifact : '*' ∉ artifact ∧ '?' ∉ artifact) {d : ResolvedDependency} :
    d ∈ r.findDependencies group artifact scope ↔
      d ∈ r.dependencies ∧ d.group = group ∧ d.artifact = artifact ∧
        d.scope.isOnClasspathOf scope = true := by
  simp only [findDependencies, List.mem_filter, Bool.and_eq_true,
    Glob.Matcher.isMatch_ofText literalGroup, Glob.Matcher.isMatch_ofText literalArtifact,
    and_assoc]

namespace Spring

/-- Whether a build file puts the core of the framework, in a version that the selector accepts, on
the classpath at run time. -/
def RunsWith (selector : Maven.Selector) (s : SourceFile) : Prop :=
  ∃ r, s.markers.resolution? = some r ∧ ∃ d ∈ r.dependencies,
    d.group = "org.springframework".toList ∧ d.artifact = "spring-core".toList ∧
      d.scope.isOnClasspathOf .runtime = true ∧ selector.accepts none d.version = true

theorem usesFramework_eq_true {versions : Text} {selector : Maven.Selector}
    (parsed : Maven.Selector.parse? versions = some selector) {s : SourceFile} :
    usesFramework versions s = true ↔ RunsWith selector s := by
  unfold usesFramework RunsWith
  rw [parsed]
  cases s.markers.resolution? with
  | none => simp
  | some r =>
    simp only [List.any_eq_true, Option.some.injEq, exists_eq_left',
      Maven.Resolution.mem_findDependencies Maven.frameworkGroup "spring-core".toList (by decide)
        (by decide), and_assoc]
    rfl

variable {versions : Text} {q : PropertyQuery}

/-- Proper options hold a key and a selector. -/
theorem problem?_findPropertyForVersions :
    (findPropertyForVersions versions q).problem? = none ↔
      (findProperty q).problem? = none ∧
        ∃ selector, Maven.Selector.parse? versions = some selector := by
  have plain : (findProperty q).problem? = q.problem? := rfl
  rw [plain]
  unfold findPropertyForVersions
  dsimp only
  rw [Maven.Selector.parse]
  cases q.problem? <;> cases Maven.Selector.parse? versions <;> simp

theorem resolutionWarnings_eq (s : SourceFile) :
    resolutionWarnings s = (s.markers.resolution?.toList.flatMap (·.warnings)).map fun w =>
      s.path ++ ": ".toList ++ w.message := by
  unfold resolutionWarnings
  cases s.markers.resolution? with
  | none => rfl
  | some r => simp

/-- What the scan of all files gathers is whether some build file uses a selected version. -/
theorem run_findPropertyForVersions (valid : (findPropertyForVersions versions q).problem? = none)
    (files : List SourceFile) :
    (findPropertyForVersions versions q).run files =
      .ok ⟨Recipe.changes (fun s => if files.any (usesFramework versions) then q.markConfig s else s)
        files, files.flatMap resolutionWarnings⟩ := by
  have gathered := foldl_or (usesFramework versions) false files
  rw [Bool.false_or] at gathered
  rw [Recipe.run_eq (fun known s => known || usesFramework versions s) resolutionWarnings
    (fun _ _ => rfl) valid files]
  simp only [← gathered]
  rfl

theorem run_findProperty (valid : (findProperty q).problem? = none) (files : List SourceFile) :
    (findProperty q).run files = .ok ⟨Recipe.changes q.markConfig files, []⟩ := by
  have silent : files.flatMap (fun _ => ([] : List Text)) = [] := by simp
  rw [Recipe.run_eq (fun _ _ => ()) (fun _ => []) (fun _ _ => rfl) valid files, silent]
  rfl

theorem any_usesFramework {selector : Maven.Selector}
    (parsed : Maven.Selector.parse? versions = some selector) (files : List SourceFile) :
    files.any (usesFramework versions) = true ↔ ∃ s ∈ files, RunsWith selector s := by
  simp only [List.any_eq_true, usesFramework_eq_true parsed]

/-- The search under a version of the framework has the results of the plain search if some build
file, wherever it stands, runs with a selected version, and no results otherwise. It warns of all
that the resolutions of all files warn of. In another order of the files each file has the result
and the warnings that it has in this order. -/
theorem findPropertyForVersions_refines
    (valid : (findPropertyForVersions versions q).problem? = none) (files : List SourceFile) :
    ∃ selector plain gated, Maven.Selector.parse versions = .ok selector ∧
      (findProperty q).run files = .ok plain ∧
      (findPropertyForVersions versions q).run files = .ok gated ∧
      ((∃ s ∈ files, RunsWith selector s) → gated.changes = plain.changes) ∧
      ((¬ ∃ s ∈ files, RunsWith selector s) → gated.changes = []) ∧
      gated.warnings = (files.flatMap fun s =>
        (s.markers.resolution?.toList.flatMap (·.warnings)).map fun w =>
          s.path ++ ": ".toList ++ w.message) ∧
      ∃ (change : SourceFile → Option FileChange) (warn : SourceFile → List Text),
        (∀ s c, change s = some c → c.before = s) ∧
        gated = ⟨files.filterMap change, files.flatMap warn⟩ ∧
        ∀ files', files'.Perm files → (findPropertyForVersions versions q).run files' =
          .ok ⟨files'.filterMap change, files'.flatMap warn⟩ := by
  obtain ⟨validKey, selector, parsed⟩ := problem?_findPropertyForVersions.mp valid
  have gate := any_usesFramework parsed files
  refine ⟨selector, _, _, ?_, run_findProperty validKey files,
    run_findPropertyForVersions valid files, ?_, ?_, ?_, ?_⟩
  · rw [Maven.Selector.parse, parsed]
  · intro used
    simp only [gate.mpr used, if_true]
  · intro unused
    have closed : files.any (usesFramework versions) = false :=
      eq_false_of_ne_true fun opened => unused (gate.mp opened)
    apply Recipe.changes_of_same
    intro s _
    rw [closed, if_neg Bool.false_ne_true]
  · exact congrArg files.flatMap (funext resolutionWarnings_eq)
  · refine ⟨Recipe.change? fun s => if files.any (usesFramework versions) then q.markConfig s else s,
      resolutionWarnings, fun _ _ => Recipe.before_of_change?, rfl, ?_⟩
    intro files' reordered
    rw [run_findPropertyForVersions valid files', reordered.any_eq, Recipe.changes_eq]

/-- A project whose build file comes last, after the configuration of the application. -/
def buildFileLast : List SourceFile :=
  (SourceFile.parse 0 "src/main/resources/application.yml".toList "a: 1\n".toList).toOption.toList ++
    [⟨⟨1, 0⟩, "pom.xml".toList, [.resolution ⟨none, [], none, none,
      [⟨"org.springframework".toList, "spring-core".toList, "5.3.7".toList, .compile, 1⟩],
      [.unresolvedVersion ['g'] ['a']]⟩], .text []⟩]

/-- The build file at the end opens the gate for the file before it. -/
theorem findPropertyForVersions_refines_buildFileLast :
    (findPropertyForVersions "5.x".toList ⟨['a'], none⟩).problem? = none ∧
      ∃ gated,
        (findPropertyForVersions "5.x".toList ⟨['a'], none⟩).run buildFileLast = .ok gated ∧
        gated.changes.map (·.after.print) = ["a: ~~>1\n".toList] ∧
        gated.warnings = ["pom.xml: Could not resolve a version for g:a".toList] := by
  have valid : (findPropertyForVersions "5.x".toList ⟨['a'], none⟩).problem? = none := by
    decide +kernel
  obtain ⟨selector, plain, gated, parsed, runPlain, runGated, opened, -, warnings, -⟩ :=
    findPropertyForVersions_refines valid buildFileLast
  have isLine : Maven.Selector.parse "5.x".toList = .ok (.wildcard [5]) := by decide +kernel
  obtain rfl := Except.ok.inj (isLine.symm.trans parsed)
  have used : ∃ s ∈ buildFileLast, RunsWith (.wildcard [5]) s := by
    refine ⟨_, List.mem_append_right _ List.mem_cons_self, _, rfl, _, List.mem_cons_self, ?_⟩
    decide +kernel
  have marked : ((findProperty ⟨['a'], none⟩).run buildFileLast).toOption.map
      (fun run => run.changes.map (·.after.print)) = some ["a: ~~>1\n".toList] := by
    decide +kernel
  refine ⟨valid, gated, runGated, ?_, ?_⟩
  · rw [opened used]
    rw [runPlain] at marked
    exact Option.some.inj marked
  · rw [warnings]
    decide +kernel

end Spring

end ConfigTree
