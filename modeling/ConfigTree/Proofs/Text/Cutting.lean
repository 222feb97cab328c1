import ConfigTree.Proofs.Yaml.Scanning

/-!
# Trimming, splitting and joining

What trimming drops and keeps, how the pieces between separators change with the text, and where a
text can be cut.
-/

namespace ConfigTree

namespace Text

theorem trimEndWhile_append {p : Char → Bool} (s : Text) {t : Text} (h : ∀ c ∈ t, p c = true) :
    trimEndWhile p (s ++ t) = trimEndWhile p s := by
  unfold trimEndWhile
  rw [List.reverse_append, List.dropWhile_append_of_pos]
  intro c inside
  exact h c (List.mem_reverse.mp inside)

/-- What dropping at the end leaves of a list, from what it leaves behind the first element. -/
theorem reverse_dropWhile_reverse_cons {α : Type} (p : α → Bool) (x : α) (l : List α) :
    ((x :: l).reverse.dropWhile p).reverse =
      if (l.reverse.dropWhile p).reverse = [] ∧ p x = true then []
      else x :: (l.reverse.dropWhile p).reverse := by
  rw [List.reverse_cons, List.dropWhile_append]
  cases h : l.reverse.dropWhile p with
  | nil => by_cases drops : p x = true <;> simp [drops]
  | cons y ys => simp

theorem trimEndWhile_cons (p : Char → Bool) (c : Char) (t : Text) :
    trimEndWhile p (c :: t) =
      if trimEndWhile p t = [] ∧ p c = true then [] else c :: trimEndWhile p t :=
  reverse_dropWhile_reverse_cons p c t

/-- What trimming drops. -/
theorem exists_append_of_trimEndWhile (p : Char → Bool) (t : Text) :
    ∃ dropped, t = trimEndWhile p t ++ dropped ∧ ∀ c ∈ dropped, p c = true := by
  refine ⟨(t.reverse.takeWhile p).reverse, ?_, ?_⟩
  · rw [trimEndWhile, ← List.reverse_append, List.takeWhile_append_dropWhile, List.reverse_reverse]
  · intro c inside
    have all := List.all_takeWhile (l := t.reverse) (p := p)
    exact List.all_eq_true.mp all c (List.mem_reverse.mp inside)

theorem trimEndWhile_trimEndWhile (p : Char → Bool) (t : Text) :
    trimEndWhile p (trimEndWhile p t) = trimEndWhile p t := by
  obtain ⟨dropped, whole, all⟩ := exists_append_of_trimEndWhile p t
  rw [← trimEndWhile_append (trimEndWhile p t) all, ← whole]

/-- A text that trimming leaves alone ends in a character to keep. -/
theorem getLast_of_trimEndWhile {p : Char → Bool} {s : Text} {c : Char}
    (h : trimEndWhile p (s ++ [c]) = s ++ [c]) : p c = false := by
  apply eq_false_of_ne_true
  intro dropped
  have shorter := congrArg List.length h
  rw [trimEndWhile_append s (by simpa using dropped), List.length_append] at shorter
  have := (trimEndWhile_isPrefix p s).length_le
  simp only [List.length_singleton] at shorter
  omega

theorem splitOn_append_cons (sep : Char) (s t : Text) :
    splitOn sep (s ++ sep :: t) = splitOn sep s ++ splitOn sep t := by
  induction s with
  | nil => simp [splitOn]
  | cons c s ih =>
    rw [List.cons_append, splitOn, splitOn, ih]
    split
    · rfl
    · cases pieces : splitOn sep s with
      | nil => exact absurd pieces (splitOn_ne_nil sep s)
      | cons p ps => rfl

theorem splitOn_of_notMem {sep : Char} {t : Text} (h : sep ∉ t) : splitOn sep t = [t] := by
  induction t with
  | nil => rfl
  | cons c t ih =>
    rw [splitOn, if_neg (by rintro rfl; simp at h), ih (by simp_all)]

theorem notMem_of_mem_splitOn {sep : Char} {t piece : Text} (h : piece ∈ splitOn sep t) :
    sep ∉ piece := by
  fun_induction splitOn sep t generalizing piece <;> grind

/-- Splitting undoes joining. -/
theorem splitOn_joinWith {sep : Char} {pieces : List Text} (nonempty : pieces ≠ [])
    (h : ∀ piece ∈ pieces, sep ∉ piece) : splitOn sep (joinWith sep pieces) = pieces := by
  induction pieces with
  | nil => contradiction
  | cons p ps ih =>
    cases ps with
    | nil => exact splitOn_of_notMem (h p (by simp))
    | cons q qs =>
      rw [joinWith_cons_cons, splitOn_append_cons, splitOn_of_notMem (h p (by simp)),
        ih (by simp) fun piece inside => h piece (by simp_all)]
      rfl

theorem joinWith_append (sep : Char) {ps qs : List Text} (left : ps ≠ []) (right : qs ≠ []) :
    joinWith sep (ps ++ qs) = joinWith sep ps ++ sep :: joinWith sep qs := by
  induction ps with
  | nil => contradiction
  | cons p ps ih =>
    cases ps with
    | nil => cases qs <;> simp_all [joinWith]
    | cons p' ps =>
      have inner := ih (List.cons_ne_nil _ _)
      simp only [List.cons_append] at inner ⊢
      simp [inner]

theorem isSome_cutAt {sep : Text} (full : sep ≠ []) (t : Text) :
    (cutAt sep t).isSome = true ↔ sep <:+: t := by
  induction t with
  | nil => simp [cutAt, full]
  | cons c t ih =>
    rw [cutAt, List.infix_cons_iff, ← ih, ← List.isPrefixOf_iff_prefix]
    split <;> simp_all

end Text

end ConfigTree
