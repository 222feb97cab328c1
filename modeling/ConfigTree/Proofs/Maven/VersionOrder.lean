import ConfigTree.Proofs.Maven.VersionText

/-!
# The order of versions

Versions are compared by their numbers, which go on with zeros, then by stage, and pre-releases and
service packs of one number by their labels. Each of these is an order, so that the whole is one, in
which zeros at the end and the labels of final releases do not show.
-/

namespace ConfigTree.Maven.Version

/-- The first parts decide, be they there or not. -/
theorem compareParts_eq_then (as bs : List Nat) :
    compareParts as bs =
      (Ord.compare (as.headD 0) (bs.headD 0)).then (compareParts as.tail bs.tail) := by
  cases bs with
  | cons b bs => rfl
  | nil =>
    cases as with
    | nil => rfl
    | cons a as =>
      cases a with
      | zero => rw [compareParts, List.all_cons]; rfl
      | succ a => rfl

theorem rightpad_succ (n : Nat) (as : List Nat) :
    as.rightpad (n + 1) 0 = as.headD 0 :: as.tail.rightpad n 0 := by
  cases as <;> simp [List.rightpad, List.replicate_succ]

/-- Lists of parts are compared as lists of one length with zeros at their ends. -/
theorem compareParts_eq_compareLex {n : Nat} {as bs : List Nat} (fits : as.length ≤ n)
    (fits' : bs.length ≤ n) :
    compareParts as bs = List.compareLex Ord.compare (as.rightpad n 0) (bs.rightpad n 0) := by
  induction n generalizing as bs with
  | zero =>
    rw [List.eq_nil_of_length_eq_zero (Nat.le_zero.mp fits),
      List.eq_nil_of_length_eq_zero (Nat.le_zero.mp fits')]
    rfl
  | succ n ih =>
    rw [compareParts_eq_then, rightpad_succ, rightpad_succ, List.compareLex_cons_cons,
      ih (by rw [List.length_tail]; omega) (by rw [List.length_tail]; omega)]

instance : Std.TransCmp compareParts where
  eq_swap {as bs} := by
    have fits : as.length ≤ as.length + bs.length := Nat.le_add_right _ _
    have fits' : bs.length ≤ as.length + bs.length := Nat.le_add_left _ _
    rw [compareParts_eq_compareLex fits fits', compareParts_eq_compareLex fits' fits]
    exact Std.OrientedCmp.eq_swap
  isLE_trans {as bs cs} := by
    have fits : as.length ≤ as.length + bs.length + cs.length := by omega
    have fits' : bs.length ≤ as.length + bs.length + cs.length := by omega
    have fits'' : cs.length ≤ as.length + bs.length + cs.length := by omega
    rw [compareParts_eq_compareLex fits fits', compareParts_eq_compareLex fits' fits'',
      compareParts_eq_compareLex fits fits'']
    exact Std.TransCmp.isLE_trans

theorem compareParts_zeros (zeros : Nat) : compareParts (List.replicate zeros 0) [] = .eq := by
  induction zeros with
  | zero => rfl
  | succ zeros ih =>
    rw [compareParts_eq_then]
    exact ih

/-- Zeros at the end do not show. -/
theorem compareParts_append_zeros (as : List Nat) (zeros : Nat) :
    compareParts (as ++ List.replicate zeros 0) as = .eq := by
  induction as with
  | nil => exact compareParts_zeros zeros
  | cons a as ih =>
    rw [compareParts_eq_then]
    exact Ordering.then_eq_eq.mpr ⟨Nat.compare_eq_eq.mpr rfl, ih⟩

theorem Stage.rank_inj {s t : Stage} : s.rank = t.rank ↔ s = t := by
  cases s <;> cases t <;> decide

/-- What decides between versions of one number and one stage. -/
def tieBreak (v : Version) : Text :=
  if v.stage = .release then [] else Text.asciiUpper (v.qualifier.getD [])

theorem compare_eq_then (v w : Version) :
    v.compare w = (compareParts v.parts w.parts).then
      ((Ord.compare v.stage.rank w.stage.rank).then (Text.compare v.tieBreak w.tieBreak)) := by
  rw [compare]
  by_cases sameStage : v.stage = w.stage
  · rw [tieBreak, tieBreak, ← sameStage]
    by_cases final : v.stage = .release
    · simp only [if_pos final, Text.compare]
    · simp only [if_neg final]
  · -- Then the stages decide, and the labels do not count.
    have decides : Ord.compare v.stage.rank w.stage.rank ≠ .eq := fun equal =>
      sameStage (Stage.rank_inj.mp (Nat.compare_eq_eq.mp equal))
    cases order : Ord.compare v.stage.rank w.stage.rank with
    | lt => rfl
    | eq => exact absurd order decides
    | gt => rfl

theorem transCmp_on {α β : Type} {cmp : β → β → Ordering} [Std.TransCmp cmp] (f : α → β) :
    Std.TransCmp fun a b => cmp (f a) (f b) where
  eq_swap := Std.OrientedCmp.eq_swap
  isLE_trans := Std.TransCmp.isLE_trans

instance : Std.TransCmp compare := by
  have byParts : Std.TransCmp fun v w : Version => compareParts v.parts w.parts := transCmp_on parts
  have byLabel : Std.TransCmp fun v w : Version => Text.compare v.tieBreak w.tieBreak :=
    transCmp_on tieBreak
  have whole : compare = compareLex (fun v w => compareParts v.parts w.parts)
      (compareLex (compareOn fun v => v.stage.rank)
        fun v w => Text.compare v.tieBreak w.tieBreak) :=
    funext fun v => funext (compare_eq_then v)
  rw [whole]
  infer_instance

theorem compare_eq_eq_iff {v w : Version} :
    v.compare w = .eq ↔ compareParts v.parts w.parts = .eq ∧ v.stage = w.stage ∧
      Text.compare v.tieBreak w.tieBreak = .eq := by
  rw [compare_eq_then, Ordering.then_eq_eq, Ordering.then_eq_eq, Nat.compare_eq_eq,
    Stage.rank_inj]

/-- Nothing, or a label that marks a final release. -/
def IsFinalMark (t : Text) : Prop :=
  t = [] ∨ ∃ sep q, (sep = '.' ∨ sep = '-') ∧ t = sep :: q ∧
    Text.asciiUpper q ∈ ["RELEASE".toList, "FINAL".toList, "GA".toList]

theorem isAlpha_of_toUpper {c : Char} (h : c.toUpper.isAlpha = true) : c.isAlpha = true := by
  by_cases lower : c.isLower = true
  · exact isAlpha_iff.mpr (.inr lower)
  · rwa [toUpper_of_not_isLower lower] at h

theorem isLabel_of_final {q : Text}
    (final : Text.asciiUpper q ∈ ["RELEASE".toList, "FINAL".toList, "GA".toList]) : IsLabel q := by
  have nonempty : q ≠ [] := by
    rintro rfl
    simp [Text.asciiUpper] at final
  have letters : ∀ c ∈ q, c.isAlpha = true := by
    intro c inside
    have upper : c.toUpper ∈ Text.asciiUpper q := List.mem_map_of_mem inside
    have all : ∀ t ∈ ["RELEASE".toList, "FINAL".toList, "GA".toList], ∀ c ∈ t,
        c.isAlpha = true := by simp
    exact isAlpha_of_toUpper (all _ final _ upper)
  rw [← List.append_nil q]
  exact isLabel_append nonempty letters (by simp)

theorem stageOf_final {q : Text}
    (final : Text.asciiUpper q ∈ ["RELEASE".toList, "FINAL".toList, "GA".toList]) :
    stageOf q = .release := by
  rw [stageOf]
  simp only [List.mem_cons, List.not_mem_nil, or_false] at final
  rcases final with spelt | spelt | spelt <;> rw [spelt] <;> decide +kernel

/-- The number zero as it is written. -/
def zero : Numeral := .ofNat 0 (by decide)

theorem dotted_append_zeros {ns : List Numeral} (nonempty : ns ≠ []) (zeros : Nat) :
    dotted (ns ++ List.replicate zeros zero) =
      dotted ns ++ (List.replicate zeros ".0".toList).flatten := by
  induction zeros with
  | zero => simp
  | succ zeros ih =>
    rw [List.replicate_succ', List.replicate_succ', ← List.append_assoc,
      dotted_append (by simp [nonempty]) (List.cons_ne_nil _ _), ih, List.flatten_append,
      List.append_assoc]
    rfl

/-- A dotted version with or without the label of a final release. -/
theorem parse?_final {ns : List Numeral} (nonempty : ns ≠ []) {mark : Text}
    (final : IsFinalMark mark) :
    ∃ v, parse? (dotted ns ++ mark) = some v ∧ v.parts = ns.map Numeral.value ∧
      v.stage = .release := by
  rcases final with rfl | ⟨sep, q, isSep, rfl, final⟩
  · rw [List.append_nil]
    exact ⟨_, parse?_dotted nonempty, rfl, rfl⟩
  · exact ⟨_, parse?_labelled nonempty isSep (isLabel_of_final final), rfl, stageOf_final final⟩

theorem compare_eq_of_release {v w : Version} (parts : compareParts v.parts w.parts = .eq)
    (final : v.stage = .release) (final' : w.stage = .release) : v.compare w = .eq := by
  rw [compare_eq_eq_iff, tieBreak, tieBreak, if_pos final, if_pos final']
  exact ⟨parts, final.trans final'.symm, rfl⟩

theorem compare_spelling {ns : List Numeral} (nonempty : ns ≠ []) (zeros : Nat) {mark : Text}
    (final : IsFinalMark mark) :
    ∃ v w, parse? (dotted ns) = some v ∧
      parse? (dotted ns ++ (List.replicate zeros ".0".toList).flatten ++ mark) = some w ∧
      w.compare v = .eq := by
  have longer : ns ++ List.replicate zeros zero ≠ [] := List.append_ne_nil_of_left_ne_nil nonempty _
  obtain ⟨w, read, parts, release⟩ := parse?_final longer final
  rw [dotted_append_zeros nonempty] at read
  refine ⟨_, w, parse?_dotted nonempty, read, compare_eq_of_release ?_ release rfl⟩
  rw [parts, List.map_append, List.map_replicate]
  exact compareParts_append_zeros _ zeros

theorem parse_eq_ok_iff {text : Text} {v : Version} :
    parse text = .ok v ↔ parse? text = some v := by
  rw [parse]
  cases parse? text <;> simp

theorem same_iff {v w : Version} : v.same w = true ↔ v.compare w = .eq := beq_iff_eq

theorem isLE_total (v w : Version) : (v.compare w).isLE ∨ (w.compare v).isLE := by
  have swapped : v.compare w = (w.compare v).swap := Std.OrientedCmp.eq_swap
  rw [swapped]
  cases w.compare v <;> decide

/-- Versions are in a total preorder, and those of one place in it are spellings of one version.
Zeros at the end of a dotted version and the label of a final release do not change its place. -/
theorem compare_isTotalPreorder :
    (∀ v : Version, v.compare v = .eq) ∧
    (∀ v w : Version, (v.compare w).isLE ∨ (w.compare v).isLE) ∧
    (∀ v w : Version, v.compare w = (w.compare v).swap) ∧
    (∀ u v w : Version, (u.compare v).isLE → (v.compare w).isLE → (u.compare w).isLE) ∧
    (∀ v w : Version, v.same w = true ↔ v.compare w = .eq) ∧
    Equivalence (fun v w : Version => v.same w = true) ∧
    (∀ u v w : Version, u.same v = true →
      u.compare w = v.compare w ∧ w.compare u = w.compare v) ∧
    ∀ (ns : List Numeral) (zeros : Nat) (mark : Text), ns ≠ [] → IsFinalMark mark →
      ∃ v w, parse (dotted ns) = .ok v ∧
        parse (dotted ns ++ (List.replicate zeros ".0".toList).flatten ++ mark) = .ok w ∧
        w.compare v = .eq := by
  refine ⟨fun _ => Std.ReflCmp.compare_self, isLE_total, fun _ _ => Std.OrientedCmp.eq_swap,
    fun _ _ _ => Std.TransCmp.isLE_trans, fun _ _ => same_iff, ?_, ?_, ?_⟩
  · simp only [same_iff]
    exact ⟨fun _ => Std.ReflCmp.compare_self, Std.OrientedCmp.eq_symm, Std.TransCmp.eq_trans⟩
  · intro u v w equal
    rw [same_iff] at equal
    exact ⟨Std.TransCmp.congr_left equal, Std.TransCmp.congr_right equal⟩
  · intro ns zeros mark nonempty final
    simp only [parse_eq_ok_iff]
    exact compare_spelling nonempty zeros final

theorem compare_isTotalPreorder_finalLabel :
    ∃ v w, parse "5.2.06".toList = .ok v ∧ parse "5.2.06.0.0-Final".toList = .ok w ∧
      w.compare v = .eq := by
  have spelt : dotted [.ofNat 5 (by decide), .ofNat 2 (by decide),
      ⟨"06".toList, 6, by decide +kernel, by decide⟩] = "5.2.06".toList := by decide +kernel
  have final : IsFinalMark "-Final".toList :=
    .inr ⟨'-', "Final".toList, .inr rfl, by decide +kernel, by decide +kernel⟩
  have equal := compare_isTotalPreorder.2.2.2.2.2.2.2 [.ofNat 5 (by decide), .ofNat 2 (by decide),
    ⟨"06".toList, 6, by decide +kernel, by decide⟩] 2 "-Final".toList (by simp) final
  rwa [spelt] at equal

end ConfigTree.Maven.Version
