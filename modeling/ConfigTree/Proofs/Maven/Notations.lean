import ConfigTree.Proofs.Maven.Intervals
import Mathlib.Data.List.TakeDrop

/-!
# Notations for one selection

First parts with a wildcard, a tilde, a caret and a range between brackets are read in different
ways. They come down to one kind of range, from some parts on up to but without others: the versions
of a line are those from its parts on up to the next line.
-/

namespace ConfigTree.Maven

namespace Version

variable {as bs cs : List Nat} {v w : Version}

theorem not_lt_nil (as : List Nat) : ¬ compareParts as [] = .lt := by
  rw [compareParts]
  split <;> simp

theorem compareParts_cons_eq_lt {b : Nat} :
    compareParts as (b :: bs) = .lt ↔
      as.headD 0 < b ∨ as.headD 0 = b ∧ compareParts as.tail bs = .lt := by
  rw [compareParts, Ordering.then_eq_lt, Nat.compare_eq_lt, Nat.compare_eq_eq]

theorem not_lt_trans (upper : ¬ compareParts as bs = .lt) (lower : ¬ compareParts bs cs = .lt) :
    ¬ compareParts as cs = .lt := by
  rw [← Ordering.isGE_iff_ne_lt] at upper lower ⊢
  exact Std.TransCmp.isGE_trans upper lower

/-- Of all parts those of a line are from the line on and before the next one. -/
theorem startsWith_iff_line (front : List Nat) (last : Nat) :
    StartsWith (front ++ [last]) as ↔
      ¬ compareParts as (front ++ [last]) = .lt ∧ compareParts as (front ++ [last + 1]) = .lt := by
  induction front generalizing as with
  | nil =>
    rw [List.nil_append, List.nil_append, startsWith_cons, and_iff_left (startsWith_nil _),
      compareParts_cons_eq_lt, compareParts_cons_eq_lt, or_iff_left fun h => not_lt_nil _ h.2,
      or_iff_left fun h => not_lt_nil _ h.2]
    omega
  | cons first front ih =>
    rw [List.cons_append, List.cons_append, startsWith_cons, ih, compareParts_cons_eq_lt,
      compareParts_cons_eq_lt]
    constructor
    · rintro ⟨same, lower, upper⟩
      refine ⟨?_, .inr ⟨same, upper⟩⟩
      rintro (less | ⟨-, below⟩)
      · omega
      · exact lower below
    · rintro ⟨lower, less | ⟨same, upper⟩⟩
      · exact absurd (.inl less) lower
      · exact ⟨same, fun below => lower (.inr ⟨same, below⟩), upper⟩

/-- Parts that begin with those of a line are not before its first version. -/
theorem not_lt_zeroLine {front : List Nat} (starts : StartsWith front as) :
    ¬ compareParts as (front ++ [0]) = .lt := by
  induction front generalizing as with
  | nil =>
    rw [List.nil_append, compareParts_cons_eq_lt]
    rintro (below | ⟨-, below⟩)
    · exact Nat.not_lt_zero _ below
    · exact not_lt_nil _ below
  | cons first front ih =>
    obtain ⟨same, later⟩ := startsWith_cons.mp starts
    rw [List.cons_append, compareParts_cons_eq_lt]
    rintro (below | ⟨-, below⟩)
    · exact Nat.lt_irrefl _ (same ▸ below)
    · exact ih later below

/-- A release is before a final release if and only if its parts are. -/
theorem compare_eq_lt_iff (release : v.isRelease = true) (final : w.stage = .release) :
    v.compare w = .lt ↔ compareParts v.parts w.parts = .lt := by
  have notBefore : ¬ (Ord.compare v.stage.rank w.stage.rank).then
      (Text.compare v.tieBreak w.tieBreak) = .lt := by
    rw [final, tieBreak, tieBreak, if_pos final]
    cases stage : v.stage with
    | preRelease => simp [isRelease, stage] at release
    | release =>
      rw [if_pos rfl]
      decide
    | servicePack =>
      have above : Ord.compare Stage.servicePack.rank Stage.release.rank = .gt := rfl
      rw [above]
      simp
  rw [compare_eq_then, Ordering.then_eq_lt, or_iff_left fun h => notBefore h.2]

end Version

namespace Selector

open Version

variable {ns ms : List Numeral} {t t' : Text} {low high : List Nat} {s s' : Selector}

/-- The text is read as a range from the version with the parts `low` on, up to but without the one
with the parts `high`. -/
def ReadsAsRange (t : Text) (low high : List Nat) : Prop :=
  ∃ r r', parse? t = some (range (some ⟨⟨r, low, none⟩, true⟩) (some ⟨⟨r', high, none⟩, false⟩))

theorem acceptsVersion_upTo (r r' : Text) {current : Option Version} {v : Version} :
    (range (some ⟨⟨r, low, none⟩, true⟩) (some ⟨⟨r', high, none⟩, false⟩)).acceptsVersion current v
        = true ↔
      v.isRelease = true ∧ ¬ compareParts v.parts low = .lt ∧ compareParts v.parts high = .lt := by
  rw [acceptsVersion_range]
  refine and_congr_right fun release => and_congr ?_ ?_
  · rw [← compare_eq_lt_iff (w := ⟨r, low, none⟩) release rfl]
    simp only [Option.some.injEq, forall_eq', Bound.admitsFromBelow_iff]
    cases v.compare ⟨r, low, none⟩ <;> simp
  · rw [← compare_eq_lt_iff (w := ⟨r', high, none⟩) release rfl]
    simp only [Option.some.injEq, forall_eq', Bound.admitsFromAbove_iff]
    simp

/-- A range up to a line that does not come after its lower end is empty. -/
theorem acceptsVersion_halfOpen {v w : Version} {current : Option Version}
    (notAfter : ¬ compareParts w.parts high = .lt) :
    (halfOpen w high).acceptsVersion current v = false := by
  rw [Bool.eq_false_iff]
  intro accepted
  obtain ⟨release, lower, upper⟩ := acceptsVersion_range.mp accepted
  have notBelow : (w.compare v).isLE := by
    have admits := Bound.admitsFromBelow_iff.mp (lower _ rfl)
    rw [← Std.OrientedCmp.isGE_iff_isLE]
    rcases admits with above | ⟨same, -⟩
    · rw [above]
      rfl
    · rw [same]
      rfl
  have before : v.compare (versionOfParts high) = .lt := by
    simpa using Bound.admitsFromAbove_iff.mp (upper _ rfl)
  rw [compare_eq_lt_iff release rfl] at before
  exact notAfter (Std.TransCmp.lt_of_isLE_of_lt (isLE_parts notBelow) before)

/-- All parts of the next line but the last are those of the version. -/
theorem startsWith_nextMinorLine (w : Version) : StartsWith (nextMinorLine w).dropLast w.parts := by
  rw [nextMinorLine]
  split
  · exact startsWith_nil _
  · exact startsWith_cons.mpr ⟨(major_eq w).symm, startsWith_nil _⟩

theorem startsWith_nextCompatibilityLine (w : Version) :
    StartsWith (nextCompatibilityLine w).dropLast w.parts := by
  rw [nextCompatibilityLine]
  split
  case isTrue => exact startsWith_nil _
  case isFalse noMajor =>
    have major : w.parts.headD 0 = 0 := by
      rw [← major_eq]
      omega
    split
    case isTrue => exact startsWith_cons.mpr ⟨major, startsWith_nil _⟩
    case isFalse noMinor =>
      have minor : w.parts.tail.headD 0 = 0 := by
        rw [← minor_eq]
        omega
      exact startsWith_cons.mpr ⟨major, startsWith_cons.mpr ⟨minor, startsWith_nil _⟩⟩

/-- Where the number of the next line has gone round to zero, a tilde or a caret accepts nothing. -/
theorem acceptsVersion_of_zeroLine {v w : Version} {current : Option Version}
    (isLine : high = nextMinorLine w ∨ high = nextCompatibilityLine w)
    (zero : high.getLast? = some 0) : (halfOpen w high).acceptsVersion current v = false := by
  have starts : StartsWith high.dropLast w.parts := by
    rcases isLine with rfl | rfl
    · exact startsWith_nextMinorLine w
    · exact startsWith_nextCompatibilityLine w
  obtain ⟨front, rfl⟩ := List.getLast?_eq_some_iff.mp zero
  rw [List.dropLast_concat] at starts
  exact acceptsVersion_halfOpen (not_lt_zeroLine starts)

example : (parse? "~18446744073709551615".toList).map
    (·.accepts none "18446744073709551615".toList) = some false := by decide +kernel

/-- Two texts are selectors that accept the same versions, whichever version is in use. -/
def Agree (t t' : Text) : Prop :=
  ∃ s s', parse t = .ok s ∧ parse t' = .ok s' ∧
    ∀ inUse version, s.accepts inUse version = s'.accepts inUse version

theorem accepts_eq {inUse inUse' : Option Text}
    (same : ∀ v, s.acceptsVersion (inUse >>= Version.parse?) v = true ↔
      s'.acceptsVersion (inUse' >>= Version.parse?) v = true) (version : Text) :
    s.accepts inUse version = s'.accepts inUse' version := by
  rw [accepts, accepts]
  cases Version.parse? version with
  | none => rfl
  | some v => exact Bool.eq_iff_iff.mpr (same v)

theorem ReadsAsRange.agree (read : ReadsAsRange t low high) (read' : ReadsAsRange t' low high) :
    Agree t t' := by
  obtain ⟨r, q, read⟩ := read
  obtain ⟨r', q', read'⟩ := read'
  refine ⟨_, _, parse_eq_ok_iff.mpr read, parse_eq_ok_iff.mpr read', fun inUse => ?_⟩
  refine accepts_eq fun v => ?_
  rw [acceptsVersion_upTo, acceptsVersion_upTo]

/-! ## Reading the notations -/

theorem cutAt_of_solid (solid : t.Solid) : Text.cutAt [' ', '-', ' '] t = none := by
  rw [← Option.not_isSome_iff_eq_none, Text.isSome_cutAt (by simp)]
  intro inside
  have blank := solid ' ' (inside.subset (by simp))
  contradiction

theorem parse?_tilde (solid : t.Solid) :
    parse? ('~' :: t) = (Version.parse? t).map fun v => halfOpen v (nextMinorLine v) := by
  have solid' : Text.Solid ('~' :: t) := solid.cons rfl
  simp [parse?, solid'.trim_eq, cutAt_of_solid solid']

theorem parse?_caret (solid : t.Solid) :
    parse? ('^' :: t) = (Version.parse? t).map fun v => halfOpen v (nextCompatibilityLine v) := by
  have solid' : Text.Solid ('^' :: t) := solid.cons rfl
  simp [parse?, solid'.trim_eq, cutAt_of_solid solid']

theorem parse?_of_digit {c : Char} (digit : c.isDigit = true) (solid : Text.Solid (c :: t)) :
    parse? (c :: t) =
      if (Text.splitOn '.' (c :: t)).any isWildcard then wildcard? (Text.splitOn '.' (c :: t))
      else (Version.parse? (c :: t)).map exact := by
  have ne (d : Char) (other : d.isDigit = false) : c ≠ d := by
    rintro rfl
    rw [digit] at other
    contradiction
  have noDash : Text.cutAt " - ".toList (c :: t) = none := cutAt_of_solid solid
  simp only [parse?, solid.trim_eq]
  rw [if_neg (List.cons_ne_nil c t), if_neg (by simp [ne 'l' rfl]), if_neg (by simp [ne 'l' rfl]),
    if_neg (by simp [ne 'l' rfl]), if_neg (by simp [ne '[' rfl, ne '(' rfl]), noDash]
  dsimp only
  split
  case h_1 isTilde => exact absurd (List.cons.inj isTilde).1 (ne '~' rfl)
  case h_2 isCaret => exact absurd (List.cons.inj isCaret).1 (ne '^' rfl)
  case h_3 => rfl

theorem bound?_of_solid {inclusive : Bool} {v : Version} (solid : t.Solid) (nonempty : t ≠ [])
    (read : Version.parse? t = some v) : bound? inclusive t = some (some ⟨v, inclusive⟩) := by
  have notBlank : t.isBlank = false := by
    cases t with
    | nil => contradiction
    | cons c t => rw [Text.isBlank, List.all_cons, solid c List.mem_cons_self, Bool.false_and]
  rw [bound?, notBlank, read]
  rfl

theorem bracketed?_pair {inner low high : Text} (pieces : Text.splitOn ',' inner = [low, high]) :
    bracketed? ('[' :: (inner ++ [')'])) =
      (bound? true low).bind fun lower => (bound? false high).bind fun upper =>
        some (range lower upper) := by
  have last : ('[' :: (inner ++ [')'])).getLast? = some ')' := by
    rw [← List.cons_append, List.getLast?_concat]
  unfold bracketed?
  rw [last]
  dsimp only
  rw [if_pos (.inr rfl), List.dropLast_concat, pieces]
  rfl

theorem parse?_bracket (solid : t.Solid) : parse? ('[' :: t) = bracketed? ('[' :: t) := by
  have solid' : Text.Solid ('[' :: t) := solid.cons rfl
  simp [parse?, solid'.trim_eq]

/-- A range with its lower end only. -/
def upTo (low high : Text) : Text := '[' :: (low ++ ',' :: high ++ [')'])

theorem readsAsRange_upTo (nonempty : ns ≠ []) (nonempty' : ms ≠ [])
    (line : ms.map Numeral.value = high) :
    ReadsAsRange (upTo (dotted ns) (dotted ms)) (ns.map Numeral.value) high := by
  subst line
  have noComma (ns : List Numeral) : ',' ∉ dotted ns := fun comma => by
    have numeric := isNumeric_of_mem_dotted comma
    contradiction
  have pieces : Text.splitOn ',' (dotted ns ++ ',' :: dotted ms) = [dotted ns, dotted ms] := by
    rw [Text.splitOn_append_cons, Text.splitOn_of_notMem (noComma ns),
      Text.splitOn_of_notMem (noComma ms)]
    rfl
  have solid : (dotted ns ++ ',' :: dotted ms ++ [')']).Solid :=
    ((solid_dotted ns).append ((solid_dotted ms).cons rfl)).append
      (List.forall_mem_singleton.mpr rfl)
  refine ⟨dotted ns, dotted ms, ?_⟩
  rw [upTo, parse?_bracket solid, bracketed?_pair pieces,
    bound?_of_solid (solid_dotted ns) (dotted_ne_nil nonempty) (parse?_dotted nonempty),
    bound?_of_solid (solid_dotted ms) (dotted_ne_nil nonempty') (parse?_dotted nonempty')]
  rfl

theorem readsAsRange_halfOpen {line : Version → List Nat} (nonempty : ns ≠ [])
    (read : parse? t = (Version.parse? (dotted ns)).map fun v => halfOpen v (line v))
    (ends : line ⟨dotted ns, ns.map Numeral.value, none⟩ = high) :
    ReadsAsRange t (ns.map Numeral.value) high := by
  rw [parse?_dotted nonempty, Option.map_some, halfOpen, ends] at read
  exact ⟨_, _, read⟩

theorem readsAsRange_tilde (nonempty : ns ≠ [])
    (ends : nextMinorLine ⟨dotted ns, ns.map Numeral.value, none⟩ = high) :
    ReadsAsRange ('~' :: dotted ns) (ns.map Numeral.value) high :=
  readsAsRange_halfOpen nonempty (parse?_tilde (solid_dotted ns)) ends

theorem readsAsRange_caret (nonempty : ns ≠ [])
    (ends : nextCompatibilityLine ⟨dotted ns, ns.map Numeral.value, none⟩ = high) :
    ReadsAsRange ('^' :: dotted ns) (ns.map Numeral.value) high :=
  readsAsRange_halfOpen nonempty (parse?_caret (solid_dotted ns)) ends

/-- A caret before a major part that is not zero keeps to this part. -/
theorem agree_caret_major {a a' : Numeral} (next : a'.value = a.value + 1) (major : 0 < a.value)
    (ns : List Numeral) :
    Agree ('^' :: dotted (a :: ns)) (upTo (dotted (a :: ns)) (dotted [a'])) := by
  have line : nextCompatibilityLine ⟨dotted (a :: ns), (a :: ns).map Numeral.value, none⟩ =
      [a'].map Numeral.value := by
    rw [nextCompatibilityLine, if_pos (.inl major), List.map_singleton, next]
    exact congrArg (fun n => [n]) (Numeral.wordSucc_value next)
  exact (readsAsRange_caret (List.cons_ne_nil a ns) line).agree
    (readsAsRange_upTo (List.cons_ne_nil a ns) (List.cons_ne_nil a' []) rfl)

theorem isWildcard_text (n : Numeral) : isWildcard n.text = false := by
  simp only [isWildcard, Bool.or_eq_false_iff, beq_eq_false_iff_ne]
  have digits (c : Char) (other : c.isDigit = false) : n.text ≠ [c] := by
    intro spelt
    have digit := n.isDigit (c := c) (by rw [spelt]; exact List.mem_singleton_self c)
    rw [digit] at other
    contradiction
  exact ⟨⟨digits 'x' rfl, digits 'X' rfl⟩, digits '*' rfl⟩

theorem wildcard?_numbers (ns : List Numeral) :
    wildcard? (ns.map Numeral.text ++ [['x']]) = some (wildcard (ns.map Numeral.value)) := by
  have numbers : ∀ piece ∈ ns.map Numeral.text, (!isWildcard piece) = true := by
    intro piece isPiece
    obtain ⟨n, -, rfl⟩ := List.mem_map.mp isPiece
    rw [isWildcard_text, Bool.not_false]
  have cut : (ns.map Numeral.text ++ [['x']]).span (!isWildcard ·) =
      (ns.map Numeral.text, [['x']]) := by
    rw [List.span_eq_takeWhile_dropWhile, List.takeWhile_append_of_pos numbers,
      List.dropWhile_append_of_pos numbers]
    simp [isWildcard]
  rw [wildcard?, cut]
  dsimp only
  rw [mapM_versionPart?]
  rfl

theorem parse?_wildcard (nonempty : ns ≠ []) :
    parse? (dotted ns ++ ".x".toList) = some (wildcard (ns.map Numeral.value)) := by
  have pieces : Text.splitOn '.' (dotted ns ++ ".x".toList) = ns.map Numeral.text ++ [['x']] := by
    rw [← splitOn_dotted nonempty]
    exact Text.splitOn_append_cons '.' (dotted ns) ['x']
  have solid : (dotted ns ++ ".x".toList).Solid :=
    (solid_dotted ns).append (by simp [Text.Solid, isWhiteSpace])
  obtain ⟨c, t, starts, digit⟩ := exists_digit_dotted nonempty
  rw [starts, List.cons_append] at pieces solid ⊢
  rw [parse?_of_digit digit solid, pieces, wildcard?_numbers]
  simp [isWildcard]

/-- A line by its first parts and a wildcard, and as a range. -/
theorem agree_wildcard (front : List Numeral) (last : Numeral)
    (read : ReadsAsRange t ((front ++ [last]).map Numeral.value)
      (front.map Numeral.value ++ [last.value + 1])) :
    Agree (dotted (front ++ [last]) ++ ".x".toList) t := by
  obtain ⟨r, r', read⟩ := read
  have read' : parse? (dotted (front ++ [last]) ++ ".x".toList) = _ := parse?_wildcard (by simp)
  refine ⟨_, _, parse_eq_ok_iff.mpr read', parse_eq_ok_iff.mpr read, fun inUse => ?_⟩
  refine accepts_eq fun v => ?_
  rw [acceptsVersion_wildcard, acceptsVersion_upTo, List.map_append, List.map_singleton,
    startsWith_iff_line]

/-- The latest patch is from the version in use on up to the next minor line. -/
theorem acceptsVersion_latestPatch_iff (r r' r'' : Text) (a b c : Nat) {current : Option Version}
    {v : Version} :
    latestPatch.acceptsVersion (some ⟨r, [a, b, c], none⟩) v = true ↔
      (range (some ⟨⟨r', [a, b, c], none⟩, true⟩)
        (some ⟨⟨r'', [a, b + 1], none⟩, false⟩)).acceptsVersion current v = true := by
  have line : StartsWith [a, b] v.parts ↔
      ¬ compareParts v.parts [a, b] = .lt ∧ compareParts v.parts [a, b + 1] = .lt :=
    startsWith_iff_line [a] b
  have patch : ¬ compareParts [a, b, c] [a, b] = .lt := by
    simp [compareParts_cons_eq_lt, not_lt_nil]
  have order (release : v.isRelease = true) :
      (Version.compare ⟨r, [a, b, c], none⟩ v).isLE ↔ ¬ compareParts v.parts [a, b, c] = .lt := by
    rw [← compare_eq_lt_iff (w := ⟨r, [a, b, c], none⟩) release rfl,
      ← Std.OrientedCmp.isGE_iff_isLE, Ordering.isGE_iff_ne_lt]
  rw [acceptsVersion_latestPatch, acceptsVersion_upTo]
  constructor
  · rintro ⟨_, inUse, release, inLine, notBelow⟩
    cases inUse
    exact ⟨release, (order release).mp notBelow, (line.mp inLine).2⟩
  · rintro ⟨release, notBelow, inLine⟩
    exact ⟨_, rfl, release, line.mpr ⟨not_lt_trans notBelow patch, inLine⟩,
      (order release).mpr notBelow⟩

/-- Notations for the same releases: first parts, tilde and caret for a line, tilde and caret for
ranges between brackets, and the latest patch for a tilde. -/
theorem agree_notations {a b c a' b' c' : Numeral} (nextA : a'.value = a.value + 1)
    (nextB : b'.value = b.value + 1) (nextC : c'.value = c.value + 1) :
    Agree (dotted [a] ++ ".x".toList) ('~' :: dotted [a]) ∧
    Agree ('~' :: dotted [a]) ('^' :: dotted [a]) ∧
    Agree (dotted [a, b] ++ ".x".toList) ('~' :: dotted [a, b]) ∧
    Agree ('~' :: dotted [a, b, c]) (upTo (dotted [a, b, c]) (dotted [a, b'])) ∧
    (0 < a.value →
      Agree ('^' :: dotted [a, b]) (upTo (dotted [a, b]) (dotted [a'])) ∧
      Agree ('^' :: dotted [a, b, c]) (upTo (dotted [a, b, c]) (dotted [a']))) ∧
    (a.value = 0 → 0 < b.value →
      Agree ('^' :: dotted [a, b, c]) (upTo (dotted [a, b, c]) (dotted [a, b']))) ∧
    (a.value = 0 → b.value = 0 →
      Agree ('^' :: dotted [a, b, c]) (upTo (dotted [a, b, c]) (dotted [a, b, c']))) ∧
    ∃ s s', parse "latest.patch".toList = .ok s ∧ parse ('~' :: dotted [a, b, c]) = .ok s' ∧
      ∀ inUse version,
        s.accepts (some (dotted [a, b, c])) version = s'.accepts inUse version := by
  have lineA : [Text.wordSucc a.value] = [a.value + 1] := by rw [Numeral.wordSucc_value nextA]
  have lineB : [a.value, Text.wordSucc b.value] = [a.value, b.value + 1] := by
    rw [Numeral.wordSucc_value nextB]
  have tilde₁ : ReadsAsRange ('~' :: dotted [a]) [a.value] [a.value + 1] :=
    readsAsRange_tilde (List.cons_ne_nil _ _) lineA
  have tilde₂ : ReadsAsRange ('~' :: dotted [a, b]) [a.value, b.value] [a.value, b.value + 1] :=
    readsAsRange_tilde (List.cons_ne_nil _ _) lineB
  have tilde₃ : ReadsAsRange ('~' :: dotted [a, b, c]) [a.value, b.value, c.value]
      [a.value, b.value + 1] := readsAsRange_tilde (List.cons_ne_nil _ _) lineB
  have caret₁ : ReadsAsRange ('^' :: dotted [a]) [a.value] [a.value + 1] :=
    readsAsRange_caret (List.cons_ne_nil _ _) ((if_pos (.inr rfl)).trans lineA)
  have ne (n : Numeral) (ns : List Numeral) : n :: ns ≠ [] := List.cons_ne_nil n ns
  refine ⟨agree_wildcard [] a tilde₁, tilde₁.agree caret₁, agree_wildcard [a] b tilde₂, ?_,
    fun major => ⟨agree_caret_major nextA major [b], agree_caret_major nextA major [b, c]⟩,
    fun noMajor minor => ?_, fun noMajor noMinor => ?_, ?_⟩
  · exact tilde₃.agree (readsAsRange_upTo (ne _ _) (ne _ _) (by simp [nextB]))
  · refine (readsAsRange_caret (ne _ _) ?_).agree (readsAsRange_upTo (ne _ _) (ne _ _) rfl)
    simp [nextCompatibilityLine, Version.major, Version.minor, Version.part, noMajor, minor,
      Numeral.wordSucc_value nextB, nextB]
  · refine (readsAsRange_caret (ne _ _) ?_).agree (readsAsRange_upTo (ne _ _) (ne _ _) rfl)
    simp [nextCompatibilityLine, Version.major, Version.minor, Version.part, noMajor, noMinor,
      Numeral.wordSucc_value nextC, nextC]
  · obtain ⟨r, r', read⟩ := tilde₃
    have latest : parse? "latest.patch".toList = some latestPatch := by decide +kernel
    refine ⟨_, _, parse_eq_ok_iff.mpr latest, parse_eq_ok_iff.mpr read, fun inUse => ?_⟩
    refine accepts_eq fun v => ?_
    rw [Option.bind_eq_bind, Option.bind_some, parse?_dotted (ne _ _)]
    exact acceptsVersion_latestPatch_iff _ _ _ _ _ _

theorem agree_notations_largePatch :
    Agree "5.x".toList "~5".toList ∧
    Agree "^5.03.18446744073709551614".toList "[5.03.18446744073709551614,6)".toList := by
  let a : Numeral := .ofNat 5 (by decide)
  let b : Numeral := ⟨"03".toList, 3, by decide +kernel, by decide⟩
  let c : Numeral := .ofNat 18446744073709551614 (by decide)
  let a' : Numeral := .ofNat 6 (by decide)
  let b' : Numeral := .ofNat 4 (by decide)
  let c' : Numeral := .ofNat 18446744073709551615 (by decide)
  have nextA : a'.value = a.value + 1 := rfl
  have nextB : b'.value = b.value + 1 := rfl
  have nextC : c'.value = c.value + 1 := rfl
  obtain ⟨line, -, -, -, compatible, -⟩ := agree_notations nextA nextB nextC
  have large := (compatible (show 0 < 5 by decide)).2
  have lineText : dotted [a] ++ ".x".toList = "5.x".toList := by decide +kernel
  have tildeText : '~' :: dotted [a] = "~5".toList := by decide +kernel
  have caretText : '^' :: dotted [a, b, c] = "^5.03.18446744073709551614".toList := by
    decide +kernel
  have rangeText : upTo (dotted [a, b, c]) (dotted [a']) =
      "[5.03.18446744073709551614,6)".toList := by decide +kernel
  rw [lineText, tildeText] at line
  rw [caretText, rangeText] at large
  exact ⟨line, large⟩

end Selector

end ConfigTree.Maven
