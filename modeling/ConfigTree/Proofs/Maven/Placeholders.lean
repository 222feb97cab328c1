import ConfigTree.Proofs.Maven.NearestWins
import ConfigTree.Proofs.Text.Cutting

/-!
# Placeholders in versions

A version can keep a placeholder, if it is for a name without a value. A declared dependency whose
version keeps one is left out. What it brings in is not looked at: a Spring Boot artifact brings in
the core of the framework in the version that the file manages, whether that version keeps a
placeholder or not. That is the one way in which a placeholder gets into a resolution.
-/

namespace ConfigTree.Maven

/-- The version opens a placeholder. -/
def OpensPlaceholder (version : Text) : Prop := ['$', '\x7b'] <:+: version

theorem hasPlaceholder_iff (t : Text) : Pom.hasPlaceholder t = true ↔ OpensPlaceholder t :=
  Text.isSome_cutAt (by simp) t

/-- No version of the framework that goes with a Spring Boot line has a placeholder. -/
theorem not_opensPlaceholder_of_frameworkVersion {boot version : Text}
    (h : frameworkVersion boot = some version) : ¬ OpensPlaceholder version := by
  obtain ⟨v, -, line⟩ := Option.bind_eq_some_iff.mp h
  rw [← hasPlaceholder_iff]
  unfold frameworkOfBootLine at line
  split at line <;> cases line <;> decide

namespace Pom

variable {p : Pom} {d e : ResolvedDependency}

/-- The version that a file states for a declared dependency: that of the dependency, or else the
managed one. -/
def statedVersion (p : Pom) (d : Dependency) : Option Text :=
  match d.version with
  | some v => some (p.expand v)
  | none => p.managedVersion (p.expand d.group) (p.expand d.artifact)

theorem versionOf_eq_some {d : Dependency} {version : Text} :
    p.versionOf d = some version ↔
      p.statedVersion d = some version ∧ ¬ OpensPlaceholder version := by
  have filtered : p.versionOf d = (p.statedVersion d).filter (!hasPlaceholder ·) := rfl
  rw [filtered, Option.filter_eq_some_iff, Bool.not_eq_true', ← hasPlaceholder_iff,
    Bool.not_eq_true]

theorem resolveDirect_fst (p : Pom) (d : Dependency) :
    (p.resolveDirect d).1 = (p.versionOf d).map fun version =>
      ⟨p.expand d.group, p.expand d.artifact, version, (p.scopeOf d).1, 0⟩ := by
  rw [resolveDirect]
  cases p.versionOf d <;> rfl

/-- A declared dependency stays if and only if its version is stated and has no placeholder. -/
theorem mem_direct : d ∈ p.direct ↔ ∃ declared ∈ p.dependencies,
    p.statedVersion declared = some d.version ∧ ¬ OpensPlaceholder d.version ∧
      d = ⟨p.expand declared.group, p.expand declared.artifact, d.version,
        (p.scopeOf declared).1, 0⟩ := by
  simp only [direct, List.mem_filterMap, resolveDirect_fst, Option.map_eq_some_iff,
    versionOf_eq_some]
  constructor
  · rintro ⟨declared, isIn, version, ⟨stated, clean⟩, rfl⟩
    exact ⟨declared, isIn, stated, clean, rfl⟩
  · rintro ⟨declared, isIn, stated, clean, same⟩
    exact ⟨declared, isIn, d.version, ⟨stated, clean⟩, same.symm⟩

/-- What is managed for the framework without the file is the version of a Spring Boot line. -/
theorem managedVersion_framework {artifact version : Text}
    (managed : p.managedVersion frameworkGroup artifact = some version)
    (opens : OpensPlaceholder version) :
    p.managedInFile frameworkGroup artifact = some version := by
  rw [managedVersion] at managed
  cases inFile : p.managedInFile frameworkGroup artifact with
  | some v =>
    rw [inFile] at managed
    exact managed
  | none =>
    have notBoot : ¬ frameworkGroup = bootGroup := by decide
    rw [inFile, managedByBoot, if_neg notBoot, if_pos rfl] at managed
    obtain ⟨boot, -, line⟩ := Option.bind_eq_some_iff.mp managed
    exact absurd opens (not_opensPlaceholder_of_frameworkVersion line)

/-- A placeholder comes in with a Spring Boot artifact, from a version that the file manages. -/
theorem opensPlaceholder_of_broughtIn (declared : d ∈ p.direct) (brings : e ∈ p.broughtIn d) :
    OpensPlaceholder e.version ↔ d.group = bootGroup ∧ ∃ version,
      p.managedInFile frameworkGroup e.artifact = some version ∧ OpensPlaceholder version := by
  rw [broughtIn] at brings
  split at brings
  · next isBoot =>
    split at brings
    · obtain ⟨artifact, -, made⟩ := List.mem_filterMap.mp brings
      obtain ⟨version, found, rfl⟩ := Option.map_eq_some_iff.mp made
      dsimp only
      constructor
      · intro opens
        cases managed : p.managedVersion frameworkGroup artifact with
        | some v =>
          rw [managed] at found
          obtain rfl : v = version := Option.some.inj found
          exact ⟨isBoot, v, managedVersion_framework managed opens, opens⟩
        | none =>
          rw [managed] at found
          exact absurd opens (not_opensPlaceholder_of_frameworkVersion found)
      · rintro ⟨-, managed, inFile, opens⟩
        rw [managedVersion, inFile] at found
        obtain rfl : managed = version := Option.some.inj found
        exact opens
    · contradiction
  · next notBoot =>
    split at brings
    · split at brings
      · contradiction
      · obtain rfl := List.mem_singleton.mp brings
        obtain ⟨-, -, -, clean, -⟩ := mem_direct.mp declared
        exact iff_of_false clean fun h => notBoot h.1
    · contradiction

/-- The declared dependencies that stay are those whose version has no placeholder. Of all
dependencies that are resolved only those have one in their version that a Spring Boot artifact
brings in, where the version that the file manages for them has one. -/
theorem opensPlaceholder_version_iff (p : Pom) :
    (∀ d, d ∈ p.resolve.dependencies ∧ d.depth = 0 ↔ ∃ declared ∈ p.dependencies,
      p.statedVersion declared = some d.version ∧ ¬ OpensPlaceholder d.version ∧
        d = ⟨p.expand declared.group, p.expand declared.artifact, d.version,
          (p.scopeOf declared).1, 0⟩) ∧
    ∀ e ∈ p.resolve.dependencies, OpensPlaceholder e.version ↔
      (∃ boot ∈ p.direct, boot.group = bootGroup ∧ e ∈ p.broughtIn boot) ∧
        ∃ version, p.managedInFile frameworkGroup e.artifact = some version ∧
          OpensPlaceholder version := by
  constructor
  · intro d
    have top : d ∈ p.resolve.dependencies ∧ d.depth = 0 ↔ d ∈ p.direct := by
      rw [← p.filter_isDirect, List.mem_filter, ResolvedDependency.isDirect, beq_iff_eq]
    rw [top, mem_direct]
  · intro e isIn
    constructor
    · intro opens
      rcases mem_dependencies.mp isIn with declared | ⟨front, behind, split, -⟩
      · obtain ⟨-, -, -, clean, -⟩ := mem_direct.mp declared
        contradiction
      · have inside : e ∈ p.direct.flatMap p.broughtIn := by simp [split]
        obtain ⟨d, declared, brings⟩ := List.mem_flatMap.mp inside
        obtain ⟨isBoot, managed⟩ := (opensPlaceholder_of_broughtIn declared brings).mp opens
        exact ⟨⟨d, declared, isBoot, brings⟩, managed⟩
    · rintro ⟨⟨boot, declared, isBoot, brings⟩, managed⟩
      exact (opensPlaceholder_of_broughtIn declared brings).mpr ⟨isBoot, managed⟩

/-- A project that manages the core of the framework in a version for which it has no value. -/
def unknownCore : Pom :=
  ⟨none, "demo".toList, none, none, .empty,
    [⟨bootGroup, "spring-boot-starter".toList, some "2.5.0".toList, none, none⟩],
    [⟨frameworkGroup, "spring-core".toList, some "$\x7bspring.version\x7d".toList, none, none⟩]⟩

/-- The starter brings in the core in that version. -/
theorem opensPlaceholder_version_iff_unknownCore :
    ∃ e ∈ unknownCore.resolve.dependencies, e.artifact = "spring-core".toList ∧
      OpensPlaceholder e.version := by
  obtain ⟨-, versions⟩ := opensPlaceholder_version_iff unknownCore
  refine ⟨⟨frameworkGroup, "spring-core".toList, "$\x7bspring.version\x7d".toList, .compile, 1⟩,
    ?_, rfl, (versions _ ?_).mpr ⟨?_, ?_⟩⟩
  · decide +kernel
  · decide +kernel
  · decide +kernel
  · refine ⟨"$\x7bspring.version\x7d".toList, ?_, ?_⟩
    · decide +kernel
    · rw [← hasPlaceholder_iff]
      decide +kernel

end Pom

end ConfigTree.Maven
