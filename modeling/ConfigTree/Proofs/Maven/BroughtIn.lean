import ConfigTree.Proofs.Maven.NearestWins

/-!
# What the declared dependencies bring in

Below the declared dependencies stand those that they bring in, in the order in which they bring
them in, and without those on an artifact that is declared in the same scope or was brought in for
it before. So no artifact is brought in twice for a scope, and none is lost.
-/

namespace ConfigTree.Maven

/-- The dependencies of a resolution at a depth. -/
def Resolution.atDepth (r : Resolution) (depth : Nat) : List ResolvedDependency :=
  r.dependencies.filter (·.depth == depth)

open ResolvedDependency

instance (ds : List ResolvedDependency) (e : ResolvedDependency) : Decidable (IsHidden ds e) :=
  inferInstanceAs (Decidable (∃ d ∈ ds, d.sameArtifact e = true))

namespace Pom

variable {ds ds' l : List ResolvedDependency} {d e : ResolvedDependency} {p : Pom}

/-- The dependencies of a list that neither those in front of the list nor the earlier ones in
it hide. -/
def firstsBehind (ds l : List ResolvedDependency) : List ResolvedDependency :=
  (l.zipIdx.filter fun x => ¬ IsHidden (ds ++ l.take x.2) x.1).map Prod.fst

theorem firstsBehind_cons (ds : List ResolvedDependency) (e : ResolvedDependency)
    (l : List ResolvedDependency) :
    firstsBehind ds (e :: l) =
      (if IsHidden ds e then [] else [e]) ++ firstsBehind (ds ++ [e]) l := by
  have later (x : ResolvedDependency × Nat) :
      ds ++ (e :: l).take (x.2 + 1) = ds ++ [e] ++ l.take x.2 := List.append_cons ds e (l.take x.2)
  rw [firstsBehind, firstsBehind, List.zipIdx_cons', List.filter_cons, List.filter_map]
  simp only [Function.comp_def, Prod.map_snd, Prod.map_fst, id, later, List.take_zero,
    List.append_nil, decide_eq_true_iff, ite_not]
  split <;> simp [Function.comp_def]

/-- Only what the dependencies in front hide counts of them. -/
theorem firstsBehind_congr (same : ∀ e, IsHidden ds e ↔ IsHidden ds' e) :
    firstsBehind ds l = firstsBehind ds' l := by
  simp only [firstsBehind, isHidden_append, same]

theorem firstsBehind_sublist (ds l : List ResolvedDependency) :
    (firstsBehind ds l).Sublist l := by
  have kept : (firstsBehind ds l).Sublist (l.zipIdx.map Prod.fst) :=
    List.filter_sublist.map Prod.fst
  rwa [List.zipIdx_map_fst] at kept

theorem not_isHidden_of_mem_firstsBehind (h : e ∈ firstsBehind ds l) : ¬ IsHidden ds e := by
  obtain ⟨⟨_, i⟩, isIn, rfl⟩ := List.mem_map.mp h
  have visible := of_decide_eq_true (List.mem_filter.mp isIn).2
  exact fun hidden => visible (isHidden_append.mpr (.inl hidden))

/-- The firsts of a list are on different artifacts or in different scopes. -/
theorem pairwise_firstsBehind (ds l : List ResolvedDependency) :
    (firstsBehind ds l).Pairwise fun d e => ¬ d.sameArtifact e = true := by
  induction l generalizing ds with
  | nil => exact .nil
  | cons d l ih =>
    rw [firstsBehind_cons]
    split
    · exact ih (ds ++ [d])
    · refine List.pairwise_cons.mpr ⟨?_, ih (ds ++ [d])⟩
      intro e behind same
      refine not_isHidden_of_mem_firstsBehind behind (isHidden_append.mpr (.inr ?_))
      exact ⟨d, List.mem_singleton_self d, same⟩

theorem addNew_eq (ds : List ResolvedDependency) (e : ResolvedDependency) :
    addNew ds e = ds ++ if IsHidden ds e then [] else [e] := by
  rw [addNew]
  by_cases hidden : IsHidden ds e
  · rw [if_pos hidden, if_pos (List.any_eq_true.mpr hidden), List.append_nil]
  · rw [if_neg hidden, if_neg fun any => hidden (List.any_eq_true.mp any)]

/-- Adding a list to dependencies puts its firsts behind them. -/
theorem foldl_addNew_eq (ds l : List ResolvedDependency) :
    l.foldl addNew ds = ds ++ firstsBehind ds l := by
  induction l generalizing ds with
  | nil => exact (List.append_nil ds).symm
  | cons e l ih =>
    -- Whether `e` stays or not, it stands in front of the rest as what hides others.
    rw [List.foldl_cons, ih, firstsBehind_congr fun _ => isHidden_addNew, firstsBehind_cons,
      addNew_eq, List.append_assoc]

/-- What a list hides stays hidden when it is added. -/
theorem isHidden_foldl_addNew (ds l : List ResolvedDependency) (e : ResolvedDependency) :
    IsHidden (l.foldl addNew ds) e ↔ IsHidden (ds ++ l) e := by
  induction l generalizing ds with
  | nil => rw [List.foldl_nil, List.append_nil]
  | cons d l ih =>
    rw [List.foldl_cons, ih, isHidden_append, isHidden_addNew, ← isHidden_append,
      List.append_assoc, List.singleton_append]

/-- What the declared dependencies bring in, one after the other. -/
def allBroughtIn (p : Pom) : List ResolvedDependency := (p.resolve.atDepth 0).flatMap p.broughtIn

theorem atDepth_zero (p : Pom) : p.resolve.atDepth 0 = p.direct := p.filter_isDirect

theorem depth_of_allBroughtIn (h : e ∈ p.allBroughtIn) : e.depth = 1 := by
  obtain ⟨d, -, brought⟩ := List.mem_flatMap.mp h
  exact (of_broughtIn brought).2.1

theorem dependencies_eq (p : Pom) :
    p.resolve.dependencies = p.resolve.atDepth 0 ++
      firstsBehind (p.resolve.atDepth 0) p.allBroughtIn := by
  rw [← foldl_addNew_eq, allBroughtIn, atDepth_zero]
  rfl

theorem atDepth_one (p : Pom) :
    p.resolve.atDepth 1 = firstsBehind (p.resolve.atDepth 0) p.allBroughtIn := by
  have top : (p.resolve.atDepth 0).filter (·.depth == 1) = [] := by
    rw [List.filter_eq_nil_iff]
    intro d isIn below
    have atTop := of_decide_eq_true (List.mem_filter.mp isIn).2
    have below := of_decide_eq_true below
    omega
  have firsts : (firstsBehind (p.resolve.atDepth 0) p.allBroughtIn).filter (·.depth == 1) =
      firstsBehind (p.resolve.atDepth 0) p.allBroughtIn := by
    rw [List.filter_eq_self]
    intro e isIn
    exact decide_eq_true (depth_of_allBroughtIn ((firstsBehind_sublist _ _).subset isIn))
  rw [Resolution.atDepth, dependencies_eq, List.filter_append, top, firsts, List.nil_append]

/-- Below the declared dependencies stand the firsts of those that they bring in, each in the scope
of the one that brings it in. No two of these are on one artifact in one scope, and whatever is
brought in has its artifact in its scope among the dependencies. -/
theorem broughtIn_of_resolve (p : Pom) :
    (∀ d ∈ p.resolve.atDepth 0, ∀ e ∈ p.broughtIn d, e.depth = 1 ∧ e.scope = d.scope) ∧
    p.resolve.atDepth 1 = firstsBehind (p.resolve.atDepth 0) p.allBroughtIn ∧
    p.resolve.dependencies = p.resolve.atDepth 0 ++ p.resolve.atDepth 1 ∧
    (p.resolve.atDepth 1).Pairwise (fun d e =>
      ¬ (d.group = e.group ∧ d.artifact = e.artifact ∧ d.scope = e.scope)) ∧
    ∀ e ∈ p.allBroughtIn, ∃ d ∈ p.resolve.dependencies,
      d.group = e.group ∧ d.artifact = e.artifact ∧ d.scope = e.scope := by
  refine ⟨fun d _ e brought => (of_broughtIn brought).2, p.atDepth_one, ?_, ?_, ?_⟩
  · rw [atDepth_one]
    exact p.dependencies_eq
  · simp only [← sameArtifact_iff]
    rw [atDepth_one]
    exact pairwise_firstsBehind _ _
  · intro e brought
    rw [← isHidden_iff, dependencies_eq, ← foldl_addNew_eq, isHidden_foldl_addNew]
    exact isHidden_append.mpr (.inr ⟨e, brought, sameArtifact_iff.mpr ⟨rfl, rfl, rfl⟩⟩)

/-- A project with two modules of the framework for compiling and one for its tests, which all bring
in the core. -/
def threeModules : Pom :=
  ⟨none, "demo".toList, none, none, .empty,
    [⟨frameworkGroup, "spring-webmvc".toList, some "5.3.30".toList, none, none⟩,
      ⟨frameworkGroup, "spring-tx".toList, some "5.3.31".toList, none, none⟩,
      ⟨frameworkGroup, "spring-test".toList, some "5.3.31".toList, some "test".toList, none⟩], []⟩

example :
    (threeModules.resolve.atDepth 1).map ResolvedDependency.display =
      ["org.springframework:spring-core:5.3.30 (compile)".toList,
        "org.springframework:spring-core:5.3.31 (test)".toList] := by
  decide +kernel

end Pom

end ConfigTree.Maven
