import ConfigTree.Maven.Resolution

/-!
# Which dependencies on an artifact stay

The dependencies that a build file declares come first, then those that they bring in, and of those
on one artifact in one scope the first stays. Scopes are kept apart. So a declared dependency hides
what is brought in on its artifact in its own scope only, and what is brought in stays beside it
exactly if it comes in a scope in which the artifact is not declared.
-/

namespace ConfigTree.Maven

namespace ResolvedDependency

theorem sameArtifact_iff {d e : ResolvedDependency} :
    d.sameArtifact e = true ↔ d.group = e.group ∧ d.artifact = e.artifact ∧ d.scope = e.scope := by
  simp [sameArtifact, and_assoc]

/-- Whether one of the dependencies is on the same artifact in the same scope. -/
def IsHidden (ds : List ResolvedDependency) (e : ResolvedDependency) : Prop :=
  ∃ d ∈ ds, d.sameArtifact e = true

theorem isHidden_iff {ds : List ResolvedDependency} {e : ResolvedDependency} :
    IsHidden ds e ↔
      ∃ d ∈ ds, d.group = e.group ∧ d.artifact = e.artifact ∧ d.scope = e.scope := by
  simp only [IsHidden, sameArtifact_iff]

theorem isHidden_append {ds es : List ResolvedDependency} {e : ResolvedDependency} :
    IsHidden (ds ++ es) e ↔ IsHidden ds e ∨ IsHidden es e := by
  simp only [IsHidden, List.mem_append, or_and_right, exists_or]

/-- What hides a dependency hides all others on its artifact in its scope. -/
theorem IsHidden.of_sameArtifact {ds : List ResolvedDependency} {d e : ResolvedDependency}
    (h : IsHidden ds d) (same : d.sameArtifact e = true) : IsHidden ds e := by
  obtain ⟨c, isIn, group, artifact, scope⟩ := isHidden_iff.mp h
  obtain ⟨group', artifact', scope'⟩ := sameArtifact_iff.mp same
  exact isHidden_iff.mpr
    ⟨c, isIn, group.trans group', artifact.trans artifact', scope.trans scope'⟩

end ResolvedDependency

open ResolvedDependency

namespace Pom

variable {ds l : List ResolvedDependency} {d e : ResolvedDependency} {p : Pom}

theorem mem_addNew : e ∈ addNew ds d ↔ e ∈ ds ∨ (e = d ∧ ¬ IsHidden ds d) := by
  rw [addNew, IsHidden, ← List.any_eq_true]
  split <;> simp_all

/-- Adding a dependency hides what it hides, whether it stays or is hidden itself. -/
theorem isHidden_addNew : IsHidden (addNew ds d) e ↔ IsHidden (ds ++ [d]) e := by
  rw [addNew]
  split
  · next hidden =>
    rw [isHidden_append]
    refine ⟨.inl, fun h => h.elim id ?_⟩
    rintro ⟨c, isLast, same⟩
    obtain rfl := List.mem_singleton.mp isLast
    exact IsHidden.of_sameArtifact (List.any_eq_true.mp hidden) same
  · rfl

/-- Of the dependencies added to others those stay that are not hidden by what comes
before them. -/
theorem mem_foldl_addNew :
    e ∈ l.foldl addNew ds ↔
      e ∈ ds ∨ ∃ front behind, l = front ++ e :: behind ∧ ¬ IsHidden (ds ++ front) e := by
  induction l generalizing ds with
  | nil => simp
  | cons d l ih =>
    rw [List.foldl_cons, ih, mem_addNew, or_assoc]
    refine or_congr_right ⟨?_, ?_⟩
    · rintro (⟨rfl, visible⟩ | ⟨front, behind, rfl, visible⟩)
      · exact ⟨[], l, rfl, by rwa [List.append_nil]⟩
      · refine ⟨d :: front, behind, rfl, fun hidden => visible ?_⟩
        rw [List.append_cons, isHidden_append, ← isHidden_addNew] at hidden
        exact isHidden_append.mpr hidden
    · rintro ⟨front, behind, split, visible⟩
      cases front with
      | nil =>
        obtain ⟨rfl, rfl⟩ := List.cons.inj split
        rw [List.append_nil] at visible
        exact .inl ⟨rfl, visible⟩
      | cons x front =>
        obtain ⟨rfl, rfl⟩ := List.cons.inj split
        refine .inr ⟨front, behind, rfl, fun hidden => visible ?_⟩
        rw [isHidden_append, isHidden_addNew] at hidden
        rw [List.append_cons]
        exact isHidden_append.mpr hidden

theorem depth_of_direct (h : d ∈ p.direct) : d.depth = 0 := by
  obtain ⟨declared, -, resolved⟩ := List.mem_filterMap.mp h
  rw [resolveDirect] at resolved
  split at resolved
  · contradiction
  · rw [← Option.some.inj resolved]

/-- What a dependency brings in belongs to the framework, is one level below, and has its scope. -/
theorem of_broughtIn (h : e ∈ p.broughtIn d) :
    e.group = frameworkGroup ∧ e.depth = 1 ∧ e.scope = d.scope := by
  rw [broughtIn] at h
  split at h
  · split at h
    · obtain ⟨artifact, -, found⟩ := List.mem_filterMap.mp h
      obtain ⟨version, -, rfl⟩ := Option.map_eq_some_iff.mp found
      exact ⟨rfl, rfl, rfl⟩
    · contradiction
  · split at h
    · split at h
      · contradiction
      · obtain rfl := List.mem_singleton.mp h
        exact ⟨rfl, rfl, rfl⟩
    · contradiction

theorem mem_dependencies :
    e ∈ p.resolve.dependencies ↔ e ∈ p.direct ∨ ∃ front behind,
      p.direct.flatMap p.broughtIn = front ++ e :: behind ∧ ¬ IsHidden (p.direct ++ front) e :=
  mem_foldl_addNew

theorem mem_dependencies_of_depth (below : e.depth = 1) :
    e ∈ p.resolve.dependencies ↔ ∃ front behind,
      p.direct.flatMap p.broughtIn = front ++ e :: behind ∧ ¬ IsHidden (p.direct ++ front) e := by
  rw [mem_dependencies, or_iff_right]
  intro declared
  have top := depth_of_direct declared
  omega

/-- The dependencies at the top are the declared ones. -/
theorem filter_isDirect (p : Pom) : p.resolve.dependencies.filter (·.isDirect) = p.direct := by
  have added (l : List ResolvedDependency) (below : ∀ e ∈ l, e.depth = 1)
      (ds : List ResolvedDependency) :
      (l.foldl addNew ds).filter (·.isDirect) = ds.filter (·.isDirect) := by
    induction l generalizing ds with
    | nil => rfl
    | cons d l ih =>
      have notDirect : d.isDirect = false := by simp [isDirect, below d List.mem_cons_self]
      rw [List.foldl_cons, ih fun e isIn => below e (List.mem_cons_of_mem _ isIn), addNew]
      split
      · rfl
      · simp [notDirect]
  have below : ∀ e ∈ p.direct.flatMap p.broughtIn, e.depth = 1 := by
    intro e isIn
    obtain ⟨d, -, brought⟩ := List.mem_flatMap.mp isIn
    exact (of_broughtIn brought).2.1
  have top : ∀ d ∈ p.direct, d.isDirect = true := by
    intro d isIn
    simp [isDirect, depth_of_direct isIn]
  rw [resolve, allDependencies, added _ below, List.filter_eq_self.mpr top]

/-- Whether a declared dependency brings in the artifact in a scope in which the artifact is
not declared. -/
def BringsInBeside (p : Pom) (group artifact : Text) (scope : Scope) : Prop :=
  (∃ d ∈ p.direct, ∃ e ∈ p.broughtIn d,
    e.group = group ∧ e.artifact = artifact ∧ e.scope = scope) ∧
  ∀ d ∈ p.direct, d.group = group → d.artifact = artifact → d.scope ≠ scope

/-- What is brought in stays if and only if the artifact is not declared in its scope. -/
theorem exists_broughtIn_iff (p : Pom) (group artifact : Text) (scope : Scope) :
    (∃ e ∈ p.resolve.dependencies,
      e.depth = 1 ∧ e.group = group ∧ e.artifact = artifact ∧ e.scope = scope) ↔
      p.BringsInBeside group artifact scope := by
  constructor
  · rintro ⟨e, isIn, below, rfl, rfl, rfl⟩
    obtain ⟨front, behind, brought, visible⟩ := (mem_dependencies_of_depth below).mp isIn
    have inside : e ∈ p.direct.flatMap p.broughtIn := by simp [brought]
    obtain ⟨d, declared, brings⟩ := List.mem_flatMap.mp inside
    refine ⟨⟨d, declared, e, brings, rfl, rfl, rfl⟩, ?_⟩
    intro c declared' group artifact scope
    exact visible (isHidden_append.mpr
      (.inl (isHidden_iff.mpr ⟨c, declared', group, artifact, scope⟩)))
  · rintro ⟨⟨d, declared, e, brings, rfl, rfl, rfl⟩, apart⟩
    have inside : e ∈ p.direct.flatMap p.broughtIn := List.mem_flatMap_of_mem declared brings
    -- The first of the kind stays, which need not be the one at hand.
    have some : ((p.direct.flatMap p.broughtIn).find? (·.sameArtifact e)).isSome = true :=
      List.find?_isSome.mpr ⟨e, inside, sameArtifact_iff.mpr ⟨rfl, rfl, rfl⟩⟩
    obtain ⟨first, found⟩ := Option.isSome_iff_exists.mp some
    obtain ⟨same, front, behind, split, before⟩ := List.find?_eq_some_iff_append.mp found
    obtain ⟨group, artifact, scope⟩ := sameArtifact_iff.mp same
    have inside' : first ∈ p.direct.flatMap p.broughtIn := by simp [split]
    obtain ⟨d', -, brings'⟩ := List.mem_flatMap.mp inside'
    have below := (of_broughtIn brings').2.1
    refine ⟨first, (mem_dependencies_of_depth below).mpr ⟨front, behind, split, ?_⟩,
      below, group, artifact, scope⟩
    intro hidden
    have hidden := hidden.of_sameArtifact same
    rcases isHidden_append.mp hidden with hidden | ⟨c, isBefore, same'⟩
    · obtain ⟨c, declared', group', artifact', scope'⟩ := isHidden_iff.mp hidden
      exact apart c declared' group' artifact' scope'
    · simpa [same'] using before c isBefore

/-- All declared dependencies stay, whatever they bring in. An artifact is beside them as brought in
if and only if one of them brings it in in a scope in which it is not declared, and a lookup finds
it then if and only if it asks for the names of the artifact and a classpath with such a scope. -/
theorem broughtIn_beside_declared (p : Pom) :
    p.resolve.dependencies.filter (·.isDirect) = p.direct ∧
    (∀ group artifact scope, (∃ e ∈ p.resolve.dependencies,
      e.depth = 1 ∧ e.group = group ∧ e.artifact = artifact ∧ e.scope = scope) ↔
        p.BringsInBeside group artifact scope) ∧
    ∀ groups artifacts classpath group artifact,
      (∃ e ∈ p.resolve.findDependencies groups artifacts classpath,
        e.depth = 1 ∧ e.group = group ∧ e.artifact = artifact) ↔
        (Glob.Matcher.ofText groups).isMatch group = true ∧
          (Glob.Matcher.ofText artifacts).isMatch artifact = true ∧
          ∃ scope, scope.isOnClasspathOf classpath = true ∧
            p.BringsInBeside group artifact scope := by
  refine ⟨p.filter_isDirect, p.exists_broughtIn_iff, ?_⟩
  intro groups artifacts classpath group artifact
  simp only [← exists_broughtIn_iff, Resolution.findDependencies, List.mem_filter,
    Bool.and_eq_true]
  constructor
  · rintro ⟨e, ⟨isIn, ⟨isGroup, isArtifact⟩, visible⟩, below, rfl, rfl⟩
    exact ⟨isGroup, isArtifact, e.scope, visible, e, isIn, below, rfl, rfl, rfl⟩
  · rintro ⟨isGroup, isArtifact, scope, visible, e, isIn, below, rfl, rfl, rfl⟩
    exact ⟨e, ⟨isIn, ⟨isGroup, isArtifact⟩, visible⟩, below, rfl, rfl⟩

/-- A project that declares the core of the framework for its tests, in another version than the one
that its web framework brings in. -/
def coreForTests : Pom :=
  ⟨none, "demo".toList, none, none, .empty,
    [⟨frameworkGroup, "spring-webmvc".toList, some "5.3.30".toList, none, none⟩,
      ⟨frameworkGroup, "spring-core".toList, some "5.3.31".toList, some "test".toList, none⟩], []⟩

/-- The core is brought in for compiling, where it is not declared, and a lookup for the tests finds
it beside the declared one. -/
theorem broughtIn_beside_declared_coreForTests :
    (∃ d ∈ coreForTests.resolve.dependencies.filter (·.isDirect),
      d.artifact = "spring-core".toList ∧ d.version = "5.3.31".toList ∧ d.scope = .test) ∧
    ∃ e ∈ coreForTests.resolve.findDependencies frameworkGroup "spring-core".toList .test,
      e.depth = 1 ∧ e.group = frameworkGroup ∧ e.artifact = "spring-core".toList := by
  obtain ⟨declared, -, lookups⟩ := broughtIn_beside_declared coreForTests
  refine ⟨?_, (lookups _ _ _ _ _).mpr ⟨?_, ?_, .compile, rfl, ?_⟩⟩
  · rw [declared]
    decide +kernel
  · decide +kernel
  · decide +kernel
  · unfold BringsInBeside
    decide +kernel

end Pom

end ConfigTree.Maven
