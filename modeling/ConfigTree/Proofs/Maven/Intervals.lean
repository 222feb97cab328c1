import ConfigTree.Maven.Selector
import ConfigTree.Proofs.Maven.VersionOrder

/-!
# What lies between accepted versions

Each kind of selector has a test of its own: first parts, ends of a range, a place in the order.
All of them fit the order of versions. What lies between two accepted versions and is as released as
they are is accepted, and so the spelling of a version does not count.
-/

namespace ConfigTree.Maven

namespace Version

/-- The parts begin with those in the list, where missing parts count as zero. -/
def StartsWith (parts as : List Nat) : Prop :=
  ∀ (i p : Nat), parts[i]? = some p → as[i]?.getD 0 = p

variable {p : Nat} {ps as bs cs : List Nat} {u v w : Version}

theorem startsWith_nil (as : List Nat) : StartsWith [] as := by
  intro i p found
  contradiction

theorem startsWith_cons :
    StartsWith (p :: ps) as ↔ as.headD 0 = p ∧ StartsWith ps as.tail := by
  constructor
  · intro starts
    constructor
    · have first := starts 0 p rfl
      cases as <;> exact first
    · intro i q found
      have later := starts (i + 1) q found
      rwa [List.getElem?_tail]
  · rintro ⟨first, later⟩ i q found
    cases i with
    | zero =>
      cases found
      cases as <;> exact first
    | succ i =>
      rw [← List.getElem?_tail]
      exact later i q found

theorem major_eq (v : Version) : v.major = v.parts.headD 0 := by
  rw [major, part]
  cases v.parts <;> rfl

theorem minor_eq (v : Version) : v.minor = v.parts.tail.headD 0 := by
  rw [minor, part, ← List.getElem?_tail]
  cases v.parts.tail <;> rfl

/-- The versions of one minor line. -/
theorem startsWith_line : StartsWith [w.major, w.minor] v.parts ↔
    v.major = w.major ∧ v.minor = w.minor := by
  rw [startsWith_cons, startsWith_cons, major_eq v, minor_eq v]
  exact and_congr_right fun _ => and_iff_left (startsWith_nil _)

theorem isLE_head (le : (compareParts as bs).isLE) : as.headD 0 ≤ bs.headD 0 := by
  rw [compareParts_eq_then] at le
  exact Nat.isLE_compare.mp (Ordering.isLE_left_of_isLE_then le)

theorem isLE_tail (same : as.headD 0 = bs.headD 0) (le : (compareParts as bs).isLE) :
    (compareParts as.tail bs.tail).isLE := by
  rwa [compareParts_eq_then, Nat.compare_eq_eq.mpr same, Ordering.eq_then] at le

/-- The lists of parts that begin alike lie side by side. -/
theorem StartsWith.between (lower : (compareParts as bs).isLE) (upper : (compareParts bs cs).isLE)
    (starts : StartsWith ps as) (starts' : StartsWith ps cs) : StartsWith ps bs := by
  induction ps generalizing as bs cs with
  | nil => exact startsWith_nil bs
  | cons p ps ih =>
    rw [startsWith_cons] at starts starts' ⊢
    obtain ⟨first, later⟩ := starts
    obtain ⟨first', later'⟩ := starts'
    have below := isLE_head lower
    have above := isLE_head upper
    have same : as.headD 0 = bs.headD 0 := by omega
    have same' : bs.headD 0 = cs.headD 0 := by omega
    exact ⟨same ▸ first, ih (isLE_tail same lower) (isLE_tail same' upper) later later'⟩

theorem isLE_parts (le : (u.compare v).isLE) : (compareParts u.parts v.parts).isLE := by
  rw [compare_eq_then] at le
  exact Ordering.isLE_left_of_isLE_then le

theorem isRelease_of_compare_eq (equal : u.compare v = .eq) : u.isRelease = v.isRelease := by
  rw [isRelease, isRelease, (compare_eq_eq_iff.mp equal).2.1]

end Version

namespace Bound

variable {b : Bound} {v w : Version}

theorem admitsFromBelow_iff :
    b.admitsFromBelow v = true ↔
      v.compare b.version = .gt ∨ v.compare b.version = .eq ∧ b.inclusive = true := by
  rw [admitsFromBelow]
  cases v.compare b.version <;> simp

theorem admitsFromAbove_iff :
    b.admitsFromAbove v = true ↔
      v.compare b.version = .lt ∨ v.compare b.version = .eq ∧ b.inclusive = true := by
  rw [admitsFromAbove]
  cases v.compare b.version <;> simp

/-- What is above an accepted version is not below the range. -/
theorem admitsFromBelow_mono (le : (v.compare w).isLE) (admits : b.admitsFromBelow v = true) :
    b.admitsFromBelow w = true := by
  rw [admitsFromBelow_iff] at admits ⊢
  have ge : (w.compare v).isGE := Std.OrientedCmp.isGE_of_isLE le
  rcases admits with above | ⟨atEnd, inclusive⟩
  · exact .inl (Std.TransCmp.gt_of_isGE_of_gt ge above)
  · have same : w.compare v = w.compare b.version := Std.TransCmp.congr_right atEnd
    rw [← same]
    cases order : w.compare v with
    | lt => simp [order] at ge
    | eq => exact .inr ⟨rfl, inclusive⟩
    | gt => exact .inl rfl

/-- What is below an accepted version is not above the range. -/
theorem admitsFromAbove_anti (le : (v.compare w).isLE) (admits : b.admitsFromAbove w = true) :
    b.admitsFromAbove v = true := by
  rw [admitsFromAbove_iff] at admits ⊢
  rcases admits with below | ⟨atEnd, inclusive⟩
  · exact .inl (Std.TransCmp.lt_of_isLE_of_lt le below)
  · have same : v.compare w = v.compare b.version := Std.TransCmp.congr_right atEnd
    rw [← same]
    cases order : v.compare w with
    | lt => exact .inl rfl
    | eq => exact .inr ⟨rfl, inclusive⟩
    | gt => simp [order] at le

end Bound

/-! ## Selectors -/

namespace Selector

open Version

variable {s : Selector} {u v w : Version} {current : Option Version}

theorem acceptsVersion_wildcard {parts : List Nat} :
    (wildcard parts).acceptsVersion current v = true ↔
      v.isRelease = true ∧ StartsWith parts v.parts := by
  rw [acceptsVersion, Bool.and_eq_true, List.all_eq_true]
  refine and_congr_right fun _ => ⟨fun all i p found => ?_, fun starts x isIn => ?_⟩
  · exact beq_iff_eq.mp (all (p, i) (List.mem_zipIdx_iff_getElem?.mpr found))
  · exact beq_iff_eq.mpr (starts x.2 x.1 (List.mem_zipIdx_iff_getElem?.mp isIn))

theorem acceptsVersion_range {lower upper : Option Bound} :
    (range lower upper).acceptsVersion current v = true ↔
      v.isRelease = true ∧ (∀ b, lower = some b → b.admitsFromBelow v = true) ∧
        ∀ b, upper = some b → b.admitsFromAbove v = true := by
  rw [acceptsVersion, Bool.and_eq_true, Bool.and_eq_true, and_assoc]
  cases lower <;> cases upper <;> simp

/-- The releases of the minor line in use, from the version in use on. -/
theorem acceptsVersion_latestPatch :
    latestPatch.acceptsVersion current v = true ↔
      ∃ w, current = some w ∧ v.isRelease = true ∧ StartsWith [w.major, w.minor] v.parts ∧
        (w.compare v).isLE := by
  cases current with
  | none => simp [acceptsVersion]
  | some w =>
    have order : (v.compare w != .lt) = (w.compare v).isLE := by
      rw [← Std.OrientedCmp.isGE_eq_isLE]
      cases v.compare w <;> rfl
    simp [acceptsVersion, startsWith_line, order, and_assoc]

/-- All kinds of selectors but exact versions and the latest integration. -/
def keepsToReleases : Selector → Bool
  | exact _ | latestIntegration => false
  | _ => true

theorem isRelease_of_acceptsVersion (keeps : s.keepsToReleases = true)
    (accepted : s.acceptsVersion current v = true) : v.isRelease = true := by
  cases s with
  | exact | latestIntegration => contradiction
  | wildcard parts => exact (acceptsVersion_wildcard.mp accepted).1
  | range lower upper => exact (acceptsVersion_range.mp accepted).1
  | latestRelease => exact accepted
  | latestPatch =>
    obtain ⟨w, -, release, -⟩ := acceptsVersion_latestPatch.mp accepted
    exact release

/-- What lies between two accepted versions is accepted, unless it is a pre-release and they
are not. -/
theorem acceptsVersion_of_between (lower : (u.compare v).isLE) (upper : (v.compare w).isLE)
    (stays : u.isRelease = true → v.isRelease = true) (accepted : s.acceptsVersion current u = true)
    (accepted' : s.acceptsVersion current w = true) : s.acceptsVersion current v = true := by
  cases s with
  | exact e =>
    have atE := same_iff.mp accepted
    have atE' := same_iff.mp accepted'
    rw [acceptsVersion, same_iff]
    refine Std.OrientedCmp.isLE_antisymm ?_ ?_
    · rwa [← Std.TransCmp.congr_right atE']
    · rwa [← Std.TransCmp.congr_left atE]
  | wildcard parts =>
    rw [acceptsVersion_wildcard] at accepted accepted' ⊢
    exact ⟨stays accepted.1, .between (isLE_parts lower) (isLE_parts upper) accepted.2 accepted'.2⟩
  | range low high =>
    rw [acceptsVersion_range] at accepted accepted' ⊢
    exact ⟨stays accepted.1, fun b isEnd => Bound.admitsFromBelow_mono lower (accepted.2.1 b isEnd),
      fun b isEnd => Bound.admitsFromAbove_anti upper (accepted'.2.2 b isEnd)⟩
  | latestRelease => exact stays accepted
  | latestIntegration => rfl
  | latestPatch =>
    rw [acceptsVersion_latestPatch] at accepted accepted' ⊢
    obtain ⟨inUse, rfl, release, line, notBelow⟩ := accepted
    obtain ⟨_, same, -, line', -⟩ := accepted'
    cases same
    exact ⟨inUse, rfl, stays release, .between (isLE_parts lower) (isLE_parts upper) line line',
      Std.TransCmp.isLE_trans notBelow lower⟩

/-- The spelling of a version does not count. -/
theorem acceptsVersion_congr (equal : u.compare v = .eq) :
    s.acceptsVersion current u = s.acceptsVersion current v := by
  have equal' : v.compare u = .eq := Std.OrientedCmp.eq_symm equal
  have le : (u.compare v).isLE := by rw [equal]; rfl
  have ge : (v.compare u).isLE := by rw [equal']; rfl
  have released := isRelease_of_compare_eq equal
  rw [Bool.eq_iff_iff]
  constructor
  · intro accepted
    exact acceptsVersion_of_between le ge (fun release => released ▸ release) accepted accepted
  · intro accepted
    exact acceptsVersion_of_between ge le (fun release => released ▸ release) accepted accepted

/-- What stands between brackets is a range or, between square brackets, one version. -/
theorem bracketed?_eq_some {t : Text} (h : bracketed? t = some s) :
    (∃ inner e, t = '[' :: inner ++ [']'] ∧ Version.parse? inner = some e ∧ s = exact e) ∨
      ∃ lower upper, s = range lower upper := by
  unfold bracketed? at h
  split at h
  case h_2 => contradiction
  case h_1 opening rest closing last =>
    rw [Option.ite_none_right_eq_some] at h
    obtain ⟨-, read⟩ := h
    simp only at read
    split at read
    case h_1 =>
      rw [Option.ite_none_right_eq_some] at read
      obtain ⟨⟨rfl, rfl⟩, named⟩ := read
      obtain ⟨e, reads, rfl⟩ := Option.map_eq_some_iff.mp named
      refine .inl ⟨rest.dropLast, e, ?_, reads, rfl⟩
      rcases List.eq_nil_or_concat rest with rfl | ⟨inner, c, rfl⟩
      · contradiction
      · rw [List.concat_eq_append] at last ⊢
        rw [← List.cons_append, List.getLast?_concat] at last
        cases last
        rw [List.dropLast_concat, List.cons_append]
    case h_2 low high _ =>
      simp only [Option.bind_eq_bind, Option.bind_eq_some_iff, Option.some.injEq] at read
      obtain ⟨lower, -, upper, -, rfl⟩ := read
      exact .inr ⟨lower, upper, rfl⟩
    case h_3 => contradiction

theorem keepsToReleases_of_wildcard? {segments : List Text} (h : wildcard? segments = some s) :
    s.keepsToReleases = true := by
  simp only [wildcard?, Option.ite_none_right_eq_some, Option.map_eq_some_iff] at h
  obtain ⟨-, parts, -, rfl⟩ := h
  rfl

/-- The text names one version, by itself or between square brackets. -/
def Names (text : Text) (e : Version) : Prop :=
  Version.parse? text.trim = some e ∨
    ∃ inner, text.trim = '[' :: inner ++ [']'] ∧ Version.parse? inner = some e

/-- How the selectors are written that do not keep to releases. -/
theorem parse?_eq_some {text : Text} (h : parse? text = some s) :
    (s = latestIntegration ∧ text.trim = "latest.integration".toList) ∨
      (∃ e, s = exact e ∧ Names text e) ∨ s.keepsToReleases = true := by
  simp only [parse?] at h
  split at h
  · contradiction
  split at h
  · cases h
    exact .inr (.inr rfl)
  split at h
  case isTrue spelt =>
    cases h
    exact .inl ⟨rfl, spelt⟩
  split at h
  · cases h
    exact .inr (.inr rfl)
  split at h
  · rcases bracketed?_eq_some h with ⟨inner, e, whole, read, rfl⟩ | ⟨lower, upper, rfl⟩
    · exact .inr (.inl ⟨e, rfl, .inr ⟨inner, whole, read⟩⟩)
    · exact .inr (.inr rfl)
  split at h
  · simp only [Option.bind_eq_bind, Option.bind_eq_some_iff, Option.some.injEq] at h
    obtain ⟨lower, -, upper, -, rfl⟩ := h
    exact .inr (.inr rfl)
  split at h
  · obtain ⟨v, -, rfl⟩ := Option.map_eq_some_iff.mp h
    exact .inr (.inr rfl)
  · obtain ⟨v, -, rfl⟩ := Option.map_eq_some_iff.mp h
    exact .inr (.inr rfl)
  split at h
  · exact .inr (.inr (keepsToReleases_of_wildcard? h))
  · obtain ⟨e, read, rfl⟩ := Option.map_eq_some_iff.mp h
    exact .inr (.inl ⟨e, rfl, .inl read⟩)

theorem accepts_of_parse? {t : Text} {inUse : Option Text} (read : Version.parse? t = some v) :
    s.accepts inUse t = s.acceptsVersion (inUse >>= Version.parse?) v := by
  rw [accepts, read]

theorem parse_eq_ok_iff {text : Text} : parse text = .ok s ↔ parse? text = some s := by
  rw [parse]
  cases parse? text <;> simp

/-- A selector accepts an interval of the order of versions: spellings of one version alike, and
with two releases all releases between them. Pre-releases are accepted only where the selector is
the latest integration or names one version. -/
theorem accepts_isInterval {text : Text} (read : parse text = .ok s) (inUse : Option Text)
    {t t' t'' : Text} {u v w : Version} (readU : Version.parse t = .ok u)
    (readV : Version.parse t' = .ok v) (readW : Version.parse t'' = .ok w) :
    (u.compare v = .eq → s.accepts inUse t = s.accepts inUse t') ∧
    ((u.compare v).isLE → (v.compare w).isLE →
      u.isRelease = true → v.isRelease = true → w.isRelease = true →
      s.accepts inUse t = true → s.accepts inUse t'' = true → s.accepts inUse t' = true) ∧
    (u.isRelease = false → s.accepts inUse t = true →
      (s = latestIntegration ∧ text.trim = "latest.integration".toList) ∨
        ∃ e, s = exact e ∧ Names text e) := by
  rw [Version.parse_eq_ok_iff] at readU readV readW
  rw [accepts_of_parse? readU, accepts_of_parse? readV, accepts_of_parse? readW]
  refine ⟨acceptsVersion_congr, fun lower upper _ release _ accepted accepted' => ?_,
    fun preRelease accepted => ?_⟩
  · exact acceptsVersion_of_between lower upper (fun _ => release) accepted accepted'
  · rcases parse?_eq_some (parse_eq_ok_iff.mp read) with any | exactly | keeps
    · exact .inl any
    · exact .inr exactly
    · have release := isRelease_of_acceptsVersion keeps accepted
      rw [preRelease] at release
      contradiction

/-- A range of releases between two of which one with a label lies. -/
def untilSixZeroOne : Selector :=
  range (some ⟨⟨"5.3".toList, [5, 3], none⟩, true⟩)
    (some ⟨⟨"6.0.1".toList, [6, 0, 1], none⟩, false⟩)

theorem accepts_isInterval_untilSixZeroOne :
    parse "[5.3, 6.0.1)".toList = .ok untilSixZeroOne ∧
    untilSixZeroOne.accepts none "5.3.0".toList =
      untilSixZeroOne.accepts none "5.3.0.Release".toList ∧
    untilSixZeroOne.accepts none "5.3.0.Release".toList = true := by
  have read : parse "[5.3, 6.0.1)".toList = .ok untilSixZeroOne :=
    parse_eq_ok_iff.mpr (by decide +kernel)
  have first : Version.parse "5.3.0".toList = .ok ⟨"5.3.0".toList, [5, 3, 0], none⟩ :=
    Version.parse_eq_ok_iff.mpr (by decide +kernel)
  have spelt : Version.parse "5.3.0.Release".toList =
      .ok ⟨"5.3.0.Release".toList, [5, 3, 0], some "Release".toList⟩ :=
    Version.parse_eq_ok_iff.mpr (by decide +kernel)
  have last : Version.parse "6".toList = .ok ⟨"6".toList, [6], none⟩ :=
    Version.parse_eq_ok_iff.mpr (by decide +kernel)
  obtain ⟨alike, between, -⟩ := accepts_isInterval read none first spelt last
  exact ⟨read, alike (by decide +kernel), between (by decide +kernel) (by decide +kernel)
    (by decide +kernel) (by decide +kernel) (by decide +kernel) (by decide +kernel)
    (by decide +kernel)⟩

end Selector

end ConfigTree.Maven
