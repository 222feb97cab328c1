import ConfigTree.Proofs.Maven.Placeholders

/-!
# What becomes of the declared dependencies

Every declared dependency is accounted for once: it is resolved, at the top and in its place among
the others, or it is left out with a warning that its version could not be resolved. Which of the
two happens is said here by where its version is stated: by itself, by the last of the managed
dependencies on its artifact, or by the Spring Boot version of the project.
-/

namespace ConfigTree.Maven

namespace Warning

/-- How the warnings begin that a version could not be resolved. -/
def unresolvedOpening : Text := "Could not resolve a version for ".toList

/-- The messages that a version could not be resolved. -/
def unresolvedMessages (warnings : List Warning) : List Text :=
  (warnings.map Warning.message).filter (unresolvedOpening.isPrefixOf ·)

/-- Whether a warning is that a version could not be resolved. -/
def isUnresolvedVersion : Warning → Bool
  | .unresolvedVersion .. => true
  | _ => false

/-- The messages are told apart by how they begin. -/
theorem isPrefixOf_message (warning : Warning) :
    unresolvedOpening.isPrefixOf warning.message = warning.isUnresolvedVersion := by
  cases warning with
  | unknownBootLine => rfl
  | unknownScope => rfl
  | unresolvedVersion => rfl

theorem unresolvedMessages_append (warnings others : List Warning) :
    unresolvedMessages (warnings ++ others) =
      unresolvedMessages warnings ++ unresolvedMessages others := by
  rw [unresolvedMessages, List.map_append, List.filter_append]
  rfl

theorem unresolvedMessages_singleton (group artifact : Text) :
    unresolvedMessages [.unresolvedVersion group artifact] =
      [(Warning.unresolvedVersion group artifact).message] :=
  List.filter_cons_of_pos (isPrefixOf_message _)

theorem unresolvedMessages_eq_nil {warnings : List Warning}
    (others : ∀ warning ∈ warnings, warning.isUnresolvedVersion = false) :
    unresolvedMessages warnings = [] := by
  rw [unresolvedMessages, List.filter_eq_nil_iff, List.forall_mem_map]
  intro warning isIn
  rw [isPrefixOf_message, others warning isIn]
  exact Bool.false_ne_true

end Warning

open Warning

/-- The parent stands for a Spring Boot version. -/
def Parent.IsBoot (parent : Parent) : Prop :=
  parent.group = bootGroup ∧ (parent.artifact = "spring-boot-starter-parent".toList ∨
    parent.artifact = "spring-boot-dependencies".toList)

namespace Pom

variable {p : Pom} {group artifact version : Text} {d : Dependency} {l : List Dependency}

/-- The managed dependency states a version of the artifact. A bill of materials states none. -/
structure States (p : Pom) (m : Dependency) (group artifact version : Text) : Prop where
  notBom : m.isBom = false
  version : m.version.map p.expand = some version
  group : p.expand m.group = group
  artifact : p.expand m.artifact = artifact

/-- None of the dependencies states a version of the artifact. -/
def StatesNone (p : Pom) (l : List Dependency) (group artifact : Text) : Prop :=
  ∀ m ∈ l, ∀ version, ¬ p.States m group artifact version

/-- The last of the dependencies that state a version of the artifact states this one. -/
def StatesLast (p : Pom) (l : List Dependency) (group artifact version : Text) : Prop :=
  ∃ front m behind, l = front ++ m :: behind ∧ p.States m group artifact version ∧
    p.StatesNone behind group artifact

theorem statesNone_cons :
    p.StatesNone (d :: l) group artifact ↔
      (∀ version, ¬ p.States d group artifact version) ∧ p.StatesNone l group artifact :=
  List.forall_mem_cons

theorem statesLast_cons :
    p.StatesLast (d :: l) group artifact version ↔
      p.StatesLast l group artifact version ∨
        p.StatesNone l group artifact ∧ p.States d group artifact version := by
  constructor
  · rintro ⟨front, m, behind, split, states, last⟩
    cases front with
    | nil =>
      obtain ⟨rfl, rfl⟩ := List.cons.inj split
      exact .inr ⟨last, states⟩
    | cons x front =>
      obtain ⟨rfl, rfl⟩ := List.cons.inj split
      exact .inl ⟨front, m, behind, rfl, states, last⟩
  · rintro (⟨front, m, behind, rfl, states, last⟩ | ⟨last, states⟩)
    · exact ⟨d :: front, m, behind, rfl, states, last⟩
    · exact ⟨[], d, l, rfl, states, last⟩

/-- The table has for an artifact what the dependency states of it, and what it had before
if that is nothing. -/
theorem find?_enter (table : VersionTable) :
    (p.enter table d).find? group artifact = some version ↔
      p.States d group artifact version ∨
        (∀ w, ¬ p.States d group artifact w) ∧ table.find? group artifact = some version := by
  rw [enter]
  split
  · next bom =>
    have silent (w : Text) : ¬ p.States d group artifact w := fun states => by
      rw [states.notBom] at bom
      contradiction
    simp [silent]
  · next notBom =>
    split
    · next absent =>
      have silent (w : Text) : ¬ p.States d group artifact w := fun states => by
        have stated := states.version
        rw [absent] at stated
        contradiction
      simp [silent]
    · next v stated =>
      by_cases same : (group, artifact) = (p.expand d.group, p.expand d.artifact)
      · obtain ⟨rfl, rfl⟩ := Prod.mk.inj same
        have states : p.States d (p.expand d.group) (p.expand d.artifact) (p.expand v) :=
          ⟨by simpa using notBom, congrArg _ stated, rfl, rfl⟩
        rw [VersionTable.find?_insert_self, Option.some_inj]
        constructor
        · rintro rfl
          exact .inl states
        · rintro (states' | ⟨silent, -⟩)
          · exact Option.some.inj (states.version.symm.trans states'.version)
          · exact absurd states (silent _)
      · have silent (w : Text) : ¬ p.States d group artifact w := fun states =>
          same (by rw [states.group, states.artifact])
        simp [VersionTable.find?_insert_ne table _ same, silent]

/-- The table has for an artifact what the last dependency on it states. -/
theorem find?_foldl_enter (table : VersionTable) :
    (l.foldl p.enter table).find? group artifact = some version ↔
      p.StatesLast l group artifact version ∨
        p.StatesNone l group artifact ∧ table.find? group artifact = some version := by
  induction l generalizing table with
  | nil => simp [StatesLast, StatesNone]
  | cons d l ih =>
    -- The rest of the list is entered behind `d`, so what it states goes before what `d` does.
    rw [List.foldl_cons, ih, find?_enter, statesLast_cons, statesNone_cons, and_or_left, or_assoc,
      and_left_comm, and_assoc]

theorem managedInFile_eq_some :
    p.managedInFile group artifact = some version ↔
      p.StatesLast p.managed group artifact version := by
  rw [managedInFile, managedTable, find?_foldl_enter, VersionTable.find?_empty]
  simp

/-- If any of the dependencies states a version of the artifact, one of them is the last to. -/
theorem statesNone_or_statesLast (p : Pom) (l : List Dependency) (group artifact : Text) :
    p.StatesNone l group artifact ∨ ∃ version, p.StatesLast l group artifact version := by
  induction l with
  | nil => exact .inl (List.forall_mem_nil _)
  | cons d l ih =>
    simp only [statesNone_cons, statesLast_cons]
    rcases ih with silent | ⟨version, last⟩
    · by_cases states : ∃ version, p.States d group artifact version
      · obtain ⟨version, states⟩ := states
        exact .inr ⟨version, .inr ⟨silent, states⟩⟩
      · exact .inl ⟨not_exists.mp states, silent⟩
    · exact .inr ⟨version, .inl last⟩

theorem managedInFile_eq_none :
    p.managedInFile group artifact = none ↔ p.StatesNone p.managed group artifact := by
  constructor
  · intro unmanaged
    refine (statesNone_or_statesLast p _ _ _).resolve_right ?_
    rintro ⟨version, last⟩
    rw [managedInFile_eq_some.mpr last] at unmanaged
    contradiction
  · intro silent
    rw [Option.eq_none_iff_forall_ne_some]
    intro version managed
    obtain ⟨front, m, behind, split, states, -⟩ := managedInFile_eq_some.mp managed
    exact silent m (by simp [split]) version states

/-- The managed dependency is the bill of materials of Spring Boot. -/
structure IsBootBom (p : Pom) (m : Dependency) : Prop where
  isBom : m.isBom = true
  group : p.expand m.group = bootGroup
  artifact : p.expand m.artifact = "spring-boot-dependencies".toList

/-- The Spring Boot version of a project is that of its parent, if the parent stands for one, and
otherwise that of the first bill of materials of Spring Boot. -/
inductive HasBootVersion (p : Pom) : Text → Prop where
  | parent {parent : Parent} (isParent : p.parent = some parent) (isBoot : parent.IsBoot) :
      HasBootVersion p (p.expand parent.version)
  | bom {front behind : List Dependency} {bom : Dependency} {version : Text}
      (otherParent : ∀ parent, p.parent = some parent → ¬ parent.IsBoot)
      (managed : p.managed = front ++ bom :: behind) (isBoot : p.IsBootBom bom)
      (first : ∀ m ∈ front, ¬ p.IsBootBom m) (stated : bom.version = some version) :
      HasBootVersion p (p.expand version)

theorem bootVersionOfParent_eq_some :
    p.bootVersionOfParent = some version ↔
      ∃ parent, p.parent = some parent ∧ parent.IsBoot ∧ p.expand parent.version = version := by
  simp only [bootVersionOfParent, Option.bind_eq_some_iff, Option.ite_none_right_eq_some,
    Option.some_inj, Parent.IsBoot]

theorem bootVersionOfParent_eq_none :
    p.bootVersionOfParent = none ↔ ∀ parent, p.parent = some parent → ¬ parent.IsBoot := by
  simp only [bootVersionOfParent, Option.bind_eq_none_iff, ite_eq_right_iff, reduceCtorEq,
    Parent.IsBoot, imp_false]

theorem bootVersionOfBom_eq_some :
    p.bootVersionOfBom = some version ↔ ∃ front bom behind v,
      p.managed = front ++ bom :: behind ∧ p.IsBootBom bom ∧ (∀ m ∈ front, ¬ p.IsBootBom m) ∧
        bom.version = some v ∧ p.expand v = version := by
  have isBoot (m : Dependency) : (m.isBom = true ∧ p.expand m.group = bootGroup ∧
      p.expand m.artifact = "spring-boot-dependencies".toList) ↔ p.IsBootBom m :=
    ⟨fun h => ⟨h.1, h.2.1, h.2.2⟩, fun h => ⟨h.isBom, h.group, h.artifact⟩⟩
  simp only [bootVersionOfBom, Option.bind_eq_some_iff, List.find?_eq_some_iff_append, isBoot,
    Option.map_eq_some_iff, decide_eq_true_iff, Bool.not_eq_true', decide_eq_false_iff_not]
  constructor
  · rintro ⟨bom, ⟨boot, front, behind, managed, first⟩, v, stated, rfl⟩
    exact ⟨front, bom, behind, v, managed, boot, first, stated, rfl⟩
  · rintro ⟨front, bom, behind, v, managed, boot, first, stated, rfl⟩
    exact ⟨bom, ⟨boot, front, behind, managed, first⟩, v, stated, rfl⟩

theorem hasBootVersion_iff : p.HasBootVersion version ↔ p.bootVersion = some version := by
  rw [bootVersion, Option.orElse_eq_orElse, Option.orElse_eq_or, Option.or_eq_some_iff,
    bootVersionOfParent_eq_some, bootVersionOfParent_eq_none, bootVersionOfBom_eq_some]
  constructor
  · rintro (⟨isParent, isBoot⟩ | ⟨otherParent, managed, isBoot, first, stated⟩)
    · exact .inl ⟨_, isParent, isBoot, rfl⟩
    · exact .inr ⟨otherParent, _, _, _, _, managed, isBoot, first, stated, rfl⟩
  · rintro (⟨parent, isParent, isBoot, rfl⟩ |
      ⟨otherParent, front, bom, behind, v, managed, isBoot, first, stated, rfl⟩)
    · exact .parent isParent isBoot
    · exact .bom otherParent managed isBoot first stated

/-! ## Where the version of a declared dependency is stated -/

/-- The version of a declared dependency is its own. If it has none, the last managed dependency on
its artifact states it, and if there is none, it goes with the Spring Boot version. -/
inductive HasVersion (p : Pom) (d : Dependency) : Text → Prop where
  | own {version : Text} (stated : d.version = some version) : HasVersion p d (p.expand version)
  | managed {version : Text} (unstated : d.version = none)
      (last : p.StatesLast p.managed (p.expand d.group) (p.expand d.artifact) version) :
      HasVersion p d version
  | boot {version : Text} (unstated : d.version = none)
      (unmanaged : p.StatesNone p.managed (p.expand d.group) (p.expand d.artifact))
      (isBoot : p.expand d.group = bootGroup) (has : p.HasBootVersion version) :
      HasVersion p d version
  | framework {boot version : Text} (unstated : d.version = none)
      (unmanaged : p.StatesNone p.managed (p.expand d.group) (p.expand d.artifact))
      (isFramework : p.expand d.group = frameworkGroup) (has : p.HasBootVersion boot)
      (aligned : frameworkVersion boot = some version) : HasVersion p d version

theorem managedByBoot_eq_some :
    p.managedByBoot group = some version ↔
      group = bootGroup ∧ p.HasBootVersion version ∨
        group = frameworkGroup ∧
          ∃ boot, p.HasBootVersion boot ∧ frameworkVersion boot = some version := by
  have apart : frameworkGroup ≠ bootGroup := by decide
  simp only [hasBootVersion_iff]
  rw [managedByBoot]
  split
  · next isBoot =>
    rw [and_iff_right isBoot, or_iff_left]
    rintro ⟨isFramework, -⟩
    exact apart (isFramework.symm.trans isBoot)
  · next notBoot =>
    rw [or_iff_right fun h => notBoot h.1]
    split
    · next isFramework => rw [and_iff_right isFramework, Option.bind_eq_some_iff]
    · next notFramework => exact iff_of_false (by simp) fun h => notFramework h.1

theorem managedVersion_eq_some :
    p.managedVersion group artifact = some version ↔
      p.StatesLast p.managed group artifact version ∨
        p.StatesNone p.managed group artifact ∧ p.managedByBoot group = some version := by
  rw [managedVersion, Option.orElse_eq_orElse, Option.orElse_eq_or, Option.or_eq_some_iff,
    managedInFile_eq_some, managedInFile_eq_none]

theorem hasVersion_iff : p.HasVersion d version ↔ p.statedVersion d = some version := by
  rw [statedVersion]
  constructor
  · rintro (stated | ⟨unstated, last⟩ | ⟨unstated, unmanaged, isBoot, has⟩ |
      ⟨unstated, unmanaged, isFramework, has, aligned⟩)
    · rw [stated]
    · rw [unstated]
      exact managedVersion_eq_some.mpr (.inl last)
    · have byBoot := managedByBoot_eq_some.mpr (.inl ⟨isBoot, has⟩)
      rw [unstated]
      exact managedVersion_eq_some.mpr (.inr ⟨unmanaged, byBoot⟩)
    · have byBoot := managedByBoot_eq_some.mpr (.inr ⟨isFramework, _, has, aligned⟩)
      rw [unstated]
      exact managedVersion_eq_some.mpr (.inr ⟨unmanaged, byBoot⟩)
  · intro stated
    split at stated
    · next own => exact Option.some.inj stated ▸ .own own
    · next unstated =>
      rcases managedVersion_eq_some.mp stated with last | ⟨unmanaged, byBoot⟩
      · exact .managed unstated last
      · rcases managedByBoot_eq_some.mp byBoot with
          ⟨isBoot, has⟩ | ⟨isFramework, boot, has, aligned⟩
        · exact .boot unstated unmanaged isBoot has
        · exact .framework unstated unmanaged isFramework has aligned

/-- A declared dependency has one version at most. -/
theorem HasVersion.unique {version' : Text} (h : p.HasVersion d version)
    (h' : p.HasVersion d version') : version = version' :=
  Option.some.inj ((hasVersion_iff.mp h).symm.trans (hasVersion_iff.mp h'))

/-- The declared dependencies are accounted for by those that are resolved and the warnings about
those that are left out, both in the order of declaration. -/
inductive Accounts (p : Pom) : List Dependency → List ResolvedDependency → List Text → Prop where
  | nil : Accounts p [] [] []
  | resolved {d : Dependency} {version : Text} {ds : List Dependency}
      {resolved : List ResolvedDependency} {warnings : List Text}
      (has : p.HasVersion d version) (clean : ¬ OpensPlaceholder version)
      (others : Accounts p ds resolved warnings) :
      Accounts p (d :: ds)
        (⟨p.expand d.group, p.expand d.artifact, version, (p.scopeOf d).1, 0⟩ :: resolved) warnings
  | leftOut {d : Dependency} {ds : List Dependency} {resolved : List ResolvedDependency}
      {warnings : List Text}
      (unresolved : ∀ version, p.HasVersion d version → OpensPlaceholder version)
      (others : Accounts p ds resolved warnings) :
      Accounts p (d :: ds) resolved
        ((Warning.unresolvedVersion d.group d.artifact).message :: warnings)

theorem Accounts.length {ds : List Dependency} {resolved : List ResolvedDependency}
    {warnings : List Text} (h : p.Accounts ds resolved warnings) :
    resolved.length + warnings.length = ds.length := by
  induction h with
  | nil => rfl
  | resolved _ _ _ ih | leftOut _ _ ih =>
    simp only [List.length_cons]
    omega

theorem unresolvedMessages_bootWarnings (p : Pom) : unresolvedMessages p.bootWarnings = [] := by
  apply unresolvedMessages_eq_nil
  rw [bootWarnings]
  split
  · split <;> simp [isUnresolvedVersion]
  · simp

theorem unresolvedMessages_scopeOf (p : Pom) (d : Dependency) :
    unresolvedMessages (p.scopeOf d).2 = [] := by
  apply unresolvedMessages_eq_nil
  rw [scopeOf]
  split
  · simp
  · split <;> simp [isUnresolvedVersion]

theorem resolveDirect_of_some (h : p.versionOf d = some version) :
    p.resolveDirect d =
      (some ⟨p.expand d.group, p.expand d.artifact, version, (p.scopeOf d).1, 0⟩,
        (p.scopeOf d).2) := by
  rw [resolveDirect, h]

theorem resolveDirect_of_none (h : p.versionOf d = none) :
    p.resolveDirect d = (none, [.unresolvedVersion d.group d.artifact]) := by
  rw [resolveDirect, h]

theorem versionOf_eq_none :
    p.versionOf d = none ↔ ∀ version, p.HasVersion d version → OpensPlaceholder version := by
  simp only [Option.eq_none_iff_forall_ne_some, ne_eq, versionOf_eq_some, hasVersion_iff, not_and,
    Classical.not_not]

theorem accounts_resolveDirect (p : Pom) (ds : List Dependency) :
    p.Accounts ds (ds.filterMap fun d => (p.resolveDirect d).1)
      (unresolvedMessages (ds.flatMap fun d => (p.resolveDirect d).2)) := by
  induction ds with
  | nil => exact .nil
  | cons d ds ih =>
    rw [List.flatMap_cons, unresolvedMessages_append, List.filterMap_cons]
    cases version : p.versionOf d with
    | none =>
      rw [resolveDirect_of_none version, unresolvedMessages_singleton]
      exact .leftOut (versionOf_eq_none.mp version) ih
    | some v =>
      obtain ⟨stated, clean⟩ := versionOf_eq_some.mp version
      rw [resolveDirect_of_some version, unresolvedMessages_scopeOf]
      exact .resolved (hasVersion_iff.mpr stated) clean ih

/-- The Spring Boot version is that of the parent or of the first bill of materials. The declared
dependencies are accounted for by the dependencies at the top and the warnings that a version could
not be resolved, so there are as many of the two together as are declared. -/
theorem accounts_of_resolve (p : Pom) :
    (∀ version, p.resolve.bootVersion = some version ↔ p.HasBootVersion version) ∧
    p.Accounts p.dependencies (p.resolve.dependencies.filter (·.isDirect))
      (unresolvedMessages p.resolve.warnings) ∧
    (p.resolve.dependencies.filter (·.isDirect)).length +
      (unresolvedMessages p.resolve.warnings).length = p.dependencies.length := by
  have warnings : unresolvedMessages p.resolve.warnings =
      unresolvedMessages (p.dependencies.flatMap fun d => (p.resolveDirect d).2) := by
    rw [resolve, unresolvedMessages_append, unresolvedMessages_bootWarnings, List.nil_append]
  have accounts : p.Accounts p.dependencies (p.resolve.dependencies.filter (·.isDirect))
      (unresolvedMessages p.resolve.warnings) := by
    rw [filter_isDirect, warnings]
    exact p.accounts_resolveDirect p.dependencies
  exact ⟨fun _ => hasBootVersion_iff.symm, accounts, accounts.length⟩

/-- A project that manages one of its two dependencies, and that one twice. -/
def managedTwice : Pom :=
  ⟨none, "demo".toList, none, none, .empty,
    [⟨"acme".toList, "lib".toList, none, none, none⟩,
      ⟨"acme".toList, "tools".toList, none, none, none⟩],
    [⟨"acme".toList, "lib".toList, some "1.0".toList, none, none⟩,
      ⟨"acme".toList, "lib".toList, some "1.1".toList, none, none⟩]⟩

example :
    managedTwice.resolve.dependencies =
      [⟨"acme".toList, "lib".toList, "1.1".toList, .compile, 0⟩] ∧
    unresolvedMessages managedTwice.resolve.warnings =
      ["Could not resolve a version for acme:tools".toList] := by
  decide +kernel

end Pom

end ConfigTree.Maven
