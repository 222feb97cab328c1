import ConfigTree.Proofs.Glob.Reading
import ConfigTree.Spring.KeyMatcher

/-!
# Relaxed keys

A key in normal form is put together from its characters one by one. A star stays what it is, and
nothing else becomes a wildcard or a slash. So what a key finds is also found by its normal form.
-/

namespace ConfigTree

/-- The lower case of a character is the character itself, or made of small letters and of characters
beyond the braces. -/
theorem lowerCase_eq_or (x : Char) :
    lowerCase x = [x] ∨
      ∀ y ∈ lowerCase x, (97 ≤ y.toNat ∧ y.toNat ≤ 122) ∨ 126 ≤ y.toNat := by
  -- Each run is taken as a whole: its image has no code of a sign, and none that is no character.
  have images : ∀ run ∈ lowerCaseRuns,
      (97 ≤ run.first + run.shift ∧ run.last + run.shift ≤ 122) ∨
        (126 ≤ run.first + run.shift ∧ run.last + run.shift < 0xd800) ∨
        (0xe000 ≤ run.first + run.shift ∧ run.last + run.shift < 0x110000) := by
    decide +kernel
  rw [lowerCase]
  split
  · exact .inr (by simp)
  · split
    · next run found =>
      have isIn := List.mem_of_find?_eq_some found
      have has := List.find?_some found
      simp only [CaseRun.has, Bool.and_eq_true, decide_eq_true_eq] at has
      have image := images run isIn
      have valid : (x.toNat + run.shift).toNat.isValidChar := by
        rw [Nat.isValidChar]
        omega
      refine .inr fun y same => ?_
      rw [List.mem_singleton.mp same, Char.ofNat, dif_pos valid]
      have own : (Char.ofNatAux _ valid).toNat = (x.toNat + run.shift).toNat := rfl
      omega
    · exact .inl rfl

namespace Spring

open Glob

/-- The slash, and the characters other than `*` that are more than themselves in patterns. -/
def reserved : List Char := ['?', '[', ']', '\x7b', '\x7d', '\\', '/']

theorem not_mem_of_mem_lowerCase {x y : Char} (isIn : y ∈ lowerCase x)
    (plain : x ∉ '*' :: reserved) : y ∉ '*' :: reserved := by
  obtain own | range := lowerCase_eq_or x
  · rw [own, List.mem_singleton] at isIn
    rwa [isIn]
  · intro sign
    have codes : ∀ z ∈ '*' :: reserved, ¬ ((97 ≤ z.toNat ∧ z.toNat ≤ 122) ∨ 126 ≤ z.toNat) := by
      simp [reserved]
    exact codes y sign (range y isIn)

/-- What is left of a character in a normal form. -/
def normalizeChar (x : Char) : Text := if x = '-' ∨ x = '_' then [] else lowerCase x

theorem normalize_eq_flatMap (k : Text) : normalize k = k.flatMap normalizeChar := by
  rw [normalize, Text.lower]
  induction k with
  | nil => rfl
  | cons x k ih =>
    by_cases dropped : x = '-' ∨ x = '_'
    · rcases dropped with rfl | rfl <;> exact ih
    · rw [not_or] at dropped
      rw [List.filter_cons_of_pos (by simp [dropped]), List.flatMap_cons, List.flatMap_cons, ih,
        normalizeChar, if_neg (by simp [dropped])]

theorem normalize_append (k l : Text) : normalize (k ++ l) = normalize k ++ normalize l := by
  simp only [normalize_eq_flatMap, List.flatMap_append]

theorem normalize_cons (x : Char) (k : Text) :
    normalize (x :: k) = normalizeChar x ++ normalize k := by
  simp only [normalize_eq_flatMap, List.flatMap_cons]

theorem normalizeChar_star : normalizeChar '*' = ['*'] := by decide +kernel

theorem not_mem_normalizeChar {x y : Char} (isIn : y ∈ normalizeChar x)
    (plain : x ∉ '*' :: reserved) : y ∉ '*' :: reserved := by
  rw [normalizeChar] at isIn
  split at isIn
  · cases isIn
  · exact not_mem_of_mem_lowerCase isIn plain

/-- A normal form brings no reserved character into a key. -/
theorem not_mem_normalize {k : Text} {y : Char} (plain : ∀ x ∈ k, x ∉ reserved)
    (isIn : y ∈ normalize k) : y ∉ reserved := by
  rw [normalize_eq_flatMap] at isIn
  obtain ⟨x, inKey, isIn⟩ := List.mem_flatMap.mp isIn
  by_cases star : x = '*'
  · rw [star, normalizeChar_star, List.mem_singleton] at isIn
    rw [isIn]
    decide
  · exact fun sign => not_mem_normalizeChar isIn (by simp [star, plain x inKey]) (by simp [sign])

variable {k c : Text}

theorem clear_of_noMarks {r : Run} (none : r.marks = 0) (noAny : '?' ∉ k) :
    ∀ run ∈ Run.runsFrom r k, run.Clear := by
  induction k generalizing r with
  | nil =>
    intro run isIn
    rw [List.mem_singleton.mp isIn]
    exact .inl none
  | cons x k ih =>
    rw [List.mem_cons, not_or] at noAny
    by_cases star : x = '*'
    · subst star
      exact ih none noAny.2
    · rw [Run.runsFrom_literal r star (Ne.symm noAny.1), List.forall_mem_cons]
      exact ⟨.inl none, ih rfl noAny.2⟩

/-- A key without reserved characters matches the texts that divide along its stars. -/
theorem isMatch_ofText_iff_of_unreserved (plain : ∀ x ∈ k, x ∉ reserved) :
    (Matcher.ofText k).isMatch c = true ↔ StandsFor k c := by
  have none (x : Char) (own : x ∈ reserved) : x ∉ k := fun isIn => plain x isIn own
  refine Matcher.isMatch_ofText_iff (fun x isIn special => plain x isIn ?_)
    (noDirectories_of_noSlash True (none '/' (by decide)))
    (clear_of_noMarks rfl (none '?' (by decide)))
  have all : ∀ x ∈ specials, x ∈ reserved := by simp [specials, reserved]
  exact all x special

theorem standsFor_append {u : Text} (plain : ∀ x ∈ u, x ≠ '*' ∧ x ≠ '?') (rest : StandsFor k c) :
    StandsFor (u ++ k) (u ++ c) := by
  induction u with
  | nil => exact rest
  | cons x u ih =>
    rw [List.forall_mem_cons] at plain
    exact .literal plain.1.1 plain.1.2 (ih plain.2)

/-- Normal forms divide as the keys do. -/
theorem standsFor_normalize (plain : ∀ x ∈ k, x ∉ reserved) (stands : StandsFor k c) :
    StandsFor (normalize k) (normalize c) := by
  induction stands with
  | nil => exact .nil
  | star part rest ih =>
    rw [normalize_cons, normalizeChar_star, normalize_append]
    exact .star (normalize part) (ih fun x isIn => plain x (List.mem_cons_of_mem _ isIn))
  | any x rest ih => exact absurd (List.mem_cons_self ..) (plain '?' (List.mem_cons_self ..))
  | @literal x k c notStar notAny rest ih =>
    rw [List.forall_mem_cons] at plain
    rw [normalize_cons, normalize_cons]
    refine standsFor_append (fun y isIn => ?_) (ih plain.2)
    have kept := not_mem_normalizeChar isIn (by simp [notStar, plain.1])
    exact ⟨fun star => kept (by simp [star]), fun any => kept (by rw [any]; decide)⟩

/-- Under relaxed binding a key without reserved characters finds all that it finds otherwise, and
all ways of writing a key or a candidate come to the same. -/
theorem KeyMatcher.isMatch_relaxed :
    (∀ k c : Text, (∀ x ∈ k, x ∉ reserved) → (ofKey k false).isMatch c = true →
      (ofKey k true).isMatch c = true) ∧
    (∀ k k' c c' : Text, normalize k' = normalize k → normalize c' = normalize c →
      (ofKey k' true).isMatch c' = (ofKey k true).isMatch c) := by
  constructor
  · intro k c plain found
    have stands : StandsFor k c := (isMatch_ofText_iff_of_unreserved plain).mp found
    exact (isMatch_ofText_iff_of_unreserved fun y isIn => not_mem_normalize plain isIn).mpr
      (standsFor_normalize plain stands)
  · intro k k' c c' sameKey sameCandidate
    simp only [ofKey, isMatch, comparable, if_true, sameKey, sameCandidate]

theorem KeyMatcher.isMatch_relaxed_datasource :
    (ofKey "spring.data-source.*".toList true).isMatch "spring.data-source.url".toList = true ∧
      (ofKey "spring.dataSource.*".toList true).isMatch "spring.DATA_SOURCE.url".toList =
        (ofKey "spring.data-source.*".toList true).isMatch "spring.data-source.url".toList :=
  ⟨isMatch_relaxed.1 _ _ (by simp [reserved]) (by decide +kernel),
    isMatch_relaxed.2 _ _ _ _ (by decide +kernel) (by decide +kernel)⟩

end Spring

end ConfigTree
