import ConfigTree.Proofs.Maven.Intervals

/-!
# Milestones, candidates and service packs

Labels with a number are compared as texts. So of two milestones of one version the one with the
smaller number comes first where the numbers have as many digits, and where they do not, only if the
first digits of the longer number are not below the shorter one: `M9` comes after `M10`.
-/

namespace ConfigTree.Maven

/-- What stands before the number in the labels of milestones, candidates and service packs. -/
def numberedKinds : List Text := ["M".toList, "RC".toList, "SP".toList]

namespace Version

variable {kind : Text} {ns : List Numeral} {n m : Nat}

theorem toUpper_of_isDigit {c : Char} (digit : c.isDigit = true) : c.toUpper = c := by
  apply toUpper_of_not_isLower
  intro lower
  rw [isDigit_iff_toNat] at digit
  rw [isLower_iff_toNat] at lower
  omega

theorem asciiUpper_numbered (known : kind ∈ numberedKinds) (n : Nat) :
    Text.asciiUpper (kind ++ Text.ofNat n) = kind ++ Text.ofNat n := by
  have letters : ∀ kind ∈ numberedKinds, Text.asciiUpper kind = kind := by decide +kernel
  have digits : Text.asciiUpper (Text.ofNat n) = Text.ofNat n :=
    (List.map_congr_left fun c inside =>
      toUpper_of_isDigit (Text.isDigit_of_mem_ofNat inside)).trans (List.map_id' _)
  rw [Text.asciiUpper, List.map_append, ← Text.asciiUpper, ← Text.asciiUpper, letters kind known,
    digits]

theorem isLabel_numbered (known : kind ∈ numberedKinds) (n : Nat) :
    IsLabel (kind ++ Text.ofNat n) := by
  have letters : ∀ kind ∈ numberedKinds, kind ≠ [] ∧ ∀ c ∈ kind, c.isAlpha = true := by
    simp [numberedKinds]
  obtain ⟨nonempty, letters⟩ := letters kind known
  exact isLabel_append nonempty letters fun _ => Text.isDigit_of_mem_ofNat

theorem stageOf_numbered (known : kind ∈ numberedKinds) (n : Nat) :
    stageOf (kind ++ Text.ofNat n) =
      if kind = "SP".toList then .servicePack else .preRelease := by
  rw [stageOf, asciiUpper_numbered known]
  simp only [numberedKinds, List.mem_cons, List.not_mem_nil, or_false] at known
  rcases known with rfl | rfl | rfl <;> simp

/-- The version with the label of a kind and a number. -/
def numbered (ns : List Numeral) (sep : Char) (kind : Text) (n : Nat) : Version :=
  ⟨dotted ns ++ sep :: (kind ++ Text.ofNat n), ns.map Numeral.value, some (kind ++ Text.ofNat n)⟩

theorem parse?_numbered (nonempty : ns ≠ []) {sep : Char} (isSep : sep = '.' ∨ sep = '-')
    (known : kind ∈ numberedKinds) (n : Nat) :
    parse? (dotted ns ++ sep :: (kind ++ Text.ofNat n)) = some (numbered ns sep kind n) :=
  parse?_labelled nonempty isSep (isLabel_numbered known n)

theorem tieBreak_numbered (known : kind ∈ numberedKinds) (sep : Char) :
    (numbered ns sep kind n).tieBreak = kind ++ Text.ofNat n := by
  have notFinal : (numbered ns sep kind n).stage ≠ .release := by
    rw [stage, numbered, Option.map_some, Option.getD_some, stageOf_numbered known]
    split <;> simp
  rw [tieBreak, if_neg notFinal]
  exact asciiUpper_numbered known n

theorem isRelease_numbered (sep : Char) : (numbered ns sep "SP".toList n).isRelease = true := by
  rw [isRelease, stage, numbered, Option.map_some, Option.getD_some,
    stageOf_numbered (by simp [numberedKinds]), if_pos rfl]
  rfl

variable (ns) in
theorem compare_numbered_eq (known : kind ∈ numberedKinds) (sep sep' : Char) (less : n < m) :
    (numbered ns sep kind n).compare (numbered ns sep' kind m) =
      if n ≤ Text.leading n m then .lt else .gt := by
  have sameStage : (numbered ns sep kind n).stage = (numbered ns sep' kind m).stage := by
    simp only [stage, numbered, Option.map_some, Option.getD_some, stageOf_numbered known]
  have sameParts : compareParts (numbered ns sep kind n).parts (numbered ns sep' kind m).parts =
      .eq := Std.ReflCmp.compare_self
  rw [compare_eq_then, sameParts, sameStage, Nat.compare_eq_eq.mpr rfl, tieBreak_numbered known,
    tieBreak_numbered known, Text.compare_append_left, Text.compare_ofNat_of_lt less]
  rfl

theorem admitsFromBelow_numbered (known : kind ∈ numberedKinds) (sep sep' : Char) (less : n < m)
    (inclusive : Bool) :
    Bound.admitsFromBelow ⟨numbered ns sep kind n, inclusive⟩ (numbered ns sep' kind m) = true ↔
      n ≤ Text.leading n m := by
  have order : (numbered ns sep' kind m).compare (numbered ns sep kind n) =
      ((numbered ns sep kind n).compare (numbered ns sep' kind m)).swap := Std.OrientedCmp.eq_swap
  rw [Bound.admitsFromBelow_iff, order, compare_numbered_eq ns known sep sep' less]
  split <;> simp_all

/-- Of two labels of one kind the one with the smaller number comes first if and only if this number
is not above the one that as many first digits of the larger number make. A range from the smaller
service pack on accepts the larger one just then. -/
theorem compare_numbered (nonempty : ns ≠ []) {sep sep' : Char} (isSep : sep = '.' ∨ sep = '-')
    (isSep' : sep' = '.' ∨ sep' = '-') (known : kind ∈ numberedKinds) (less : n < m) :
    ∃ v w, parse (dotted ns ++ sep :: (kind ++ Text.ofNat n)) = .ok v ∧
      parse (dotted ns ++ sep' :: (kind ++ Text.ofNat m)) = .ok w ∧
      v.compare w = (if n ≤ Text.leading n m then .lt else .gt) ∧
      (kind = "SP".toList → ∀ inclusive upper inUse,
        (Selector.range (some ⟨v, inclusive⟩) upper).accepts inUse
            (dotted ns ++ sep' :: (kind ++ Text.ofNat m)) = true ↔
          n ≤ Text.leading n m ∧ ∀ b, upper = some b → b.admitsFromAbove w = true) := by
  have later := parse?_numbered nonempty isSep' known m
  refine ⟨_, _, parse_eq_ok_iff.mpr (parse?_numbered nonempty isSep known n),
    parse_eq_ok_iff.mpr later, compare_numbered_eq ns known sep sep' less, ?_⟩
  rintro rfl inclusive upper inUse
  rw [Selector.accepts_of_parse? later, Selector.acceptsVersion_range,
    and_iff_right (isRelease_numbered sep')]
  simp only [Option.some.injEq, forall_eq', admitsFromBelow_numbered known sep sep' less]

/-- The tenth service pack comes before the ninth. -/
theorem compare_numbered_tenthPack :
    ∃ v w, parse "1.0.SP9".toList = .ok v ∧ parse "1.0-SP10".toList = .ok w ∧
      v.compare w = .gt ∧
      ¬ (Selector.range (some ⟨v, true⟩) none).accepts none "1.0-SP10".toList = true := by
  have spelt : dotted [.ofNat 1 (by decide), .ofNat 0 (by decide)] = "1.0".toList := by
    decide +kernel
  have known : "SP".toList ∈ numberedKinds := by simp [numberedKinds]
  have firstDigit : ¬ 9 ≤ Text.leading 9 10 := by decide +kernel
  obtain ⟨v, w, ninth, tenth, order, accepted⟩ := compare_numbered
    (List.cons_ne_nil (.ofNat 1 (by decide)) [.ofNat 0 (by decide)]) (.inl rfl) (.inr rfl) known
    (show 9 < 10 by decide)
  have tenthText : "1.0-SP10".toList = "1.0".toList ++ '-' :: ("SP".toList ++ Text.ofNat 10) := by
    decide +kernel
  have ninthText : "1.0.SP9".toList = "1.0".toList ++ '.' :: ("SP".toList ++ Text.ofNat 9) := by
    decide +kernel
  rw [spelt, ← ninthText] at ninth
  rw [spelt, ← tenthText] at tenth accepted
  refine ⟨v, w, ninth, tenth, order.trans (if_neg firstDigit), fun above => firstDigit ?_⟩
  exact ((accepted rfl true none none).mp above).1

end Version

end ConfigTree.Maven
