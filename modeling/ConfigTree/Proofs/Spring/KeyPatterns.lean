import ConfigTree.Proofs.Glob.Signs
import ConfigTree.Spring.KeyMatcher

/-!
# Keys as patterns

For which keys `*` and `?` are all the wildcards there are: those without brackets and directories
whose runs of wildcards are clear. All other keys with wildcards find a key that does not divide
along them, or miss one that does.
-/

namespace ConfigTree

namespace Glob

variable {k : Text} {p : Pattern}

section Pattern

variable (parsed : parse? k = some p) (same : ∀ c, p.isMatch false c = true ↔ StandsFor k c)
include parsed same

theorem noSpecials_of_forall : ∀ x ∈ k, x ∉ specials := by
  obtain ⟨c, found, most⟩ := exists_isMatch_of_isMatch ((same _).mpr (standsFor_fill 'x' k))
  have least : k.countP isSign ≤ c.countP isSign :=
    ((same c).mp found).countP_le (by decide) (fun any => absurd any (by decide))
      fun _ sign => sign
  have start : Levels.start.signs = 0 := rfl
  obtain ⟨enough, plain⟩ := readsWithin_of_readPattern parsed
  rw [start] at enough plain
  exact plain (by omega)

theorem noDirectories_of_forall : NoDirectories True k := by
  have plain := noSpecials_of_forall parsed same
  obtain ⟨simple, enough, free⟩ := @asksWithin_of_readPattern (k.length + 1) none [] k p plain
    (fun _ isIn => by cases isIn) (fun slash => by cases slash) parsed
  have none : slashes [] = 0 := rfl
  have found := (p.isMatch_iff false _).mpr (.inr (patternAccepts_least simple))
  have least : k.countP (· == '/') ≤ (p.flatMap Token.least).countP (· == '/') :=
    ((same _).mp found).countP_le (by decide) (fun any => absurd any (by decide))
      fun _ slash => slash
  have asked : (p.flatMap Token.least).countP (· == '/') = slashes p := rfl
  have has : k.countP (· == '/') = k.count '/' := rfl
  rw [none] at enough free
  exact (free (by omega)).mono fun _ => .inl rfl

theorem clear_of_forall_isMatch : ∀ run ∈ Run.runsFrom .empty k, run.Clear := by
  refine clear_of_forall fun c => ?_
  obtain ⟨p', read, stands⟩ := @exists_readPattern (k.length + 1) none [] k (Nat.lt_succ_self _)
    (noSpecials_of_forall parsed same) (by simp) (by simp)
    ((noDirectories_of_forall parsed same).mono fun _ => trivial)
  obtain rfl : p = p' := Option.some.inj (parsed.symm.trans read)
  rw [← same, Pattern.isMatch_iff]
  exact (stands c.utf8).symm

end Pattern

/-- A name with wildcards that matches what divides along them is a pattern. -/
theorem exists_parse_of_forall (wild : '*' ∈ k ∨ '?' ∈ k)
    (same : ∀ c, (Matcher.ofText k).isMatch c = true ↔ StandsFor k c) :
    ∃ p, parse? k = some p ∧ ∀ c, p.isMatch false c = true ↔ StandsFor k c := by
  have isPattern : k.contains '*' = true ∨ k.contains '?' = true :=
    wild.imp List.contains_iff_mem.mpr List.contains_iff_mem.mpr
  rw [Matcher.ofText, if_pos isPattern] at same
  cases parsed : parse? k with
  | some p =>
    rw [parsed] at same
    exact ⟨p, rfl, same⟩
  | none =>
    -- The name stands for itself alone, and not for what is written without wildcards.
    rw [parsed] at same
    have itself : k = fill 'x' k := by
      simpa [Matcher.isMatch] using (same _).mpr (standsFor_fill 'x' k)
    obtain ⟨noStar, noAny⟩ := not_mem_fill (y := 'x') (by decide) (by decide) k
    rw [← itself] at noStar noAny
    exact absurd wild (not_or.mpr ⟨noStar, noAny⟩)

end Glob

namespace Spring

open Glob

/-- A key with wildcards finds just the keys that divide along them if it has no brackets, braces
and backslashes, no two stars before a slash at its start or behind another slash, and all its runs
of wildcards are without question marks, or have one and a star. -/
theorem KeyMatcher.isMatch_eq_standsFor_iff {k : Text} (wild : '*' ∈ k ∨ '?' ∈ k) :
    (∀ c, (ofKey k false).isMatch c = true ↔ StandsFor k c) ↔
      (∀ x ∈ k, x ∉ specials) ∧ NoDirectories True k ∧
        ∀ run ∈ Run.runsFrom .empty k, run.Clear := by
  constructor
  · intro same
    obtain ⟨p, parsed, same⟩ := exists_parse_of_forall wild same
    exact ⟨noSpecials_of_forall parsed same, noDirectories_of_forall parsed same,
      clear_of_forall_isMatch parsed same⟩
  · rintro ⟨plain, free, clear⟩ c
    exact Matcher.isMatch_ofText_iff plain free clear

/-- The key of a list entry is not taken for itself, the key of a plain group is. -/
theorem KeyMatcher.isMatch_eq_standsFor_iff_servers :
    ¬ (∀ c, (ofKey "servers[0].*".toList false).isMatch c = true ↔
        StandsFor "servers[0].*".toList c) ∧
      ∀ c, (ofKey "server.*.ssl.?*".toList false).isMatch c = true ↔
        StandsFor "server.*.ssl.?*".toList c := by
  constructor
  · intro same
    have plain := ((isMatch_eq_standsFor_iff (.inl (by simp))).mp same).1
    exact plain '[' (by simp) (by simp [specials])
  · refine (isMatch_eq_standsFor_iff (.inl (by simp))).mpr
      ⟨by simp [specials], noDirectories_of_noSlash True (by simp), by decide +kernel⟩

end Spring

end ConfigTree
