import ConfigTree.Text.Blank
import ConfigTree.Text.Numeral

/-!
# Decimal numbers and the order of texts

Digits stand for a number, and every number has its digits. Texts are in the order of a dictionary,
which compares from the first character on. So it agrees with the order of numbers where they have
as many digits, and compares a longer number by its first digits only.
-/

namespace ConfigTree

namespace Text

theorem isDigit_iff {c : Char} : c.isDigit = true ↔ '0' ≤ c ∧ c ≤ '9' := by
  rw [Char.isDigit, Bool.and_eq_true, decide_eq_true_eq, decide_eq_true_eq]
  exact Iff.rfl

theorem digitValue_of_isDigit {c : Char} (digit : c.isDigit = true) :
    digitValue c = some (c.toNat - '0'.toNat) := if_pos (isDigit_iff.mp digit)

theorem value_lt_ten {c : Char} (digit : c.isDigit = true) : c.toNat - '0'.toNat < 10 := by
  have upper : c.toNat ≤ '9'.toNat := UInt32.le_iff_toNat_le.mp (isDigit_iff.mp digit).2
  have nine : '9'.toNat = '0'.toNat + 9 := rfl
  omega

theorem ten_le_digitValue {c : Char} {d : Nat} (letter : ¬ c.isDigit = true)
    (value : digitValue c = some d) : 10 ≤ d := by
  rw [digitValue, if_neg fun digit => letter (isDigit_iff.mpr digit)] at value
  split at value
  · cases value
    exact Nat.le_add_left _ _
  · split at value
    · cases value
      exact Nat.le_add_left _ _
    · contradiction

theorem numeralFrom_cons (value : Nat) (c : Char) (t : Text) :
    numeralFrom 10 value (c :: t) =
      if c.isDigit then numeralFrom 10 (10 * value + (c.toNat - '0'.toNat)) t else none := by
  rw [numeralFrom]
  by_cases digit : c.isDigit = true
  · simp only [digitValue_of_isDigit digit, if_pos (value_lt_ten digit), if_pos digit,
      Nat.mul_comm 10]
  · rw [if_neg digit]
    cases found : digitValue c with
    | none => rfl
    | some d => exact if_neg (Nat.not_lt.mpr (ten_le_digitValue digit found))

theorem numeralFrom_eq_some_iff {value n : Nat} {t : Text} :
    numeralFrom 10 value t = some n ↔
      (∀ c ∈ t, c.isDigit = true) ∧ Nat.ofDigitChars 10 t value = n := by
  induction t generalizing value with
  | nil => simp [numeralFrom]
  | cons c t ih =>
    rw [numeralFrom_cons, Nat.ofDigitChars_cons, List.forall_mem_cons]
    by_cases digit : c.isDigit = true
    · simp [digit, ih]
    · simp [digit]

theorem digits?_eq_some_iff {n : Nat} {t : Text} :
    digits? 10 t = some n ↔
      t ≠ [] ∧ (∀ c ∈ t, c.isDigit = true) ∧ Nat.ofDigitChars 10 t 0 = n := by
  cases t with
  | nil => simp [digits?]
  | cons c t => simp [digits?, numeralFrom_eq_some_iff]

theorem isDigit_of_mem_ofNat {n : Nat} {c : Char} (h : c ∈ ofNat n) : c.isDigit = true :=
  Nat.isDigit_of_mem_toDigits (by decide) (by decide) h

/-- Reading undoes writing. -/
theorem digits?_ofNat (n : Nat) : digits? 10 (ofNat n) = some n :=
  digits?_eq_some_iff.mpr ⟨Nat.toDigits_ne_nil, fun _ => isDigit_of_mem_ofNat,
    Nat.ofDigitChars_toDigits (by decide) (by decide)⟩

theorem ofNat_of_lt {n : Nat} (small : n < 10) : ofNat n = [n.digitChar] :=
  Nat.toDigits_of_lt_base small

theorem ofNat_of_ge {n : Nat} (large : 10 ≤ n) :
    ofNat n = ofNat (n / 10) ++ [(n % 10).digitChar] :=
  Nat.toDigits_of_base_le (by decide) large

theorem length_ofNat_pos (n : Nat) : 0 < (ofNat n).length := Nat.length_toDigits_pos

theorem length_ofNat_eq_one_iff {n : Nat} : (ofNat n).length = 1 ↔ n < 10 := by
  constructor
  · intro one
    exact (Nat.length_toDigits_le_iff (by decide) (by decide)).mp (Nat.le_of_eq one)
  · intro small
    rw [ofNat_of_lt small, List.length_singleton]

theorem length_ofNat_le {n m : Nat} (le : n ≤ m) : (ofNat n).length ≤ (ofNat m).length := by
  have below := (Nat.length_toDigits_le_iff (by decide) (length_ofNat_pos m)).mp (Nat.le_refl _)
  exact (Nat.length_toDigits_le_iff (by decide) (length_ofNat_pos m)).mpr
    (Nat.lt_of_le_of_lt le below)

/-- What is left of a number without its last `k` digits. -/
def dropDigits : Nat → Nat → Nat
  | 0, n => n
  | k + 1, n => dropDigits k (n / 10)

theorem ofNat_eq_append {k n : Nat} (fewer : k < (ofNat n).length) :
    ∃ last, last.length = k ∧ ofNat n = ofNat (dropDigits k n) ++ last := by
  induction k generalizing n with
  | zero => exact ⟨[], rfl, (List.append_nil _).symm⟩
  | succ k ih =>
    have large : 10 ≤ n := by
      apply Nat.le_of_not_lt
      intro small
      rw [← length_ofNat_eq_one_iff] at small
      omega
    rw [ofNat_of_ge large, List.length_append, List.length_singleton] at fewer
    obtain ⟨last, length, whole⟩ := ih (Nat.lt_of_add_lt_add_right fewer)
    refine ⟨last ++ [(n % 10).digitChar], by rw [List.length_append, length]; rfl, ?_⟩
    rw [ofNat_of_ge large, whole, dropDigits, List.append_assoc]

/-- The number that the first digits of `m` make, as many as `n` has. -/
def leading (n m : Nat) : Nat := dropDigits ((ofNat m).length - (ofNat n).length) m

theorem ofNat_eq_leading_append {n m : Nat} (le : n ≤ m) :
    ∃ last, last.length = (ofNat m).length - (ofNat n).length ∧
      ofNat m = ofNat (leading n m) ++ last := by
  apply ofNat_eq_append
  have := length_ofNat_pos n
  have := length_ofNat_le le
  omega

theorem length_ofNat_leading {n m : Nat} (le : n ≤ m) :
    (ofNat (leading n m)).length = (ofNat n).length := by
  obtain ⟨last, length, whole⟩ := ofNat_eq_leading_append le
  have split := congrArg List.length whole
  rw [List.length_append, length] at split
  have := length_ofNat_le le
  omega

theorem compare_eq_compareLex (s t : Text) :
    compare s t = List.compareLex (compareOn Char.toNat) s t := by
  fun_induction compare s t with
  | case1 => rfl
  | case2 => rfl
  | case3 => rfl
  | case4 c s d t ih =>
    rw [ih, List.compareLex_cons_cons]
    rfl

instance : Std.TransCmp compare where
  eq_swap {s t} := by
    rw [compare_eq_compareLex, compare_eq_compareLex]
    exact Std.OrientedCmp.eq_swap
  isLE_trans {s t u} := by
    rw [compare_eq_compareLex, compare_eq_compareLex, compare_eq_compareLex]
    exact Std.TransCmp.isLE_trans

/-- What follows two texts of one length counts where these do not decide. -/
theorem compare_append {s t : Text} (sameLength : s.length = t.length) (s' t' : Text) :
    compare (s ++ s') (t ++ t') = (compare s t).then (compare s' t') := by
  induction s generalizing t with
  | nil =>
    cases t with
    | nil => rfl
    | cons d t => contradiction
  | cons c s ih =>
    cases t with
    | nil => contradiction
    | cons d t =>
      rw [List.cons_append, List.cons_append, compare, compare, ih (Nat.succ.inj sameLength),
        Ordering.then_assoc]

theorem compare_append_left (p s t : Text) : compare (p ++ s) (p ++ t) = compare s t := by
  have same : compare p p = .eq := Std.ReflCmp.compare_self
  rw [compare_append rfl, same]
  rfl

theorem compare_digitChar {n m : Nat} (smallN : n < 10) (smallM : m < 10) :
    compare [n.digitChar] [m.digitChar] = Ord.compare n m := by
  simp only [compare, Ordering.then_eq, Nat.toNat_digitChar_of_lt_ten, smallN, smallM]
  grind [Nat.compare_eq_ite_lt]

/-- Numbers are compared by all digits but the last, and then by the last. -/
theorem compareNat_eq_then (n m : Nat) :
    Ord.compare n m = (Ord.compare (n / 10) (m / 10)).then (Ord.compare (n % 10) (m % 10)) := by
  rcases Nat.lt_trichotomy (n / 10) (m / 10) with less | same | more
  · rw [Nat.compare_eq_lt.mpr less, Nat.compare_eq_lt.mpr (by omega)]
    rfl
  · rw [Nat.compare_eq_eq.mpr same, Ordering.then]
    grind [Nat.compare_eq_ite_lt]
  · rw [Nat.compare_eq_gt.mpr more, Nat.compare_eq_gt.mpr (by omega)]
    rfl

/-- Numbers with as many digits are in the order of their digits. -/
theorem compare_ofNat {n m : Nat} (sameLength : (ofNat n).length = (ofNat m).length) :
    compare (ofNat n) (ofNat m) = Ord.compare n m := by
  -- On the number without its last digit, since that is how digits are written.
  induction n using Nat.strongRecOn generalizing m with
  | ind n ih =>
    by_cases small : n < 10
    · have smallM : m < 10 := by
        rwa [← length_ofNat_eq_one_iff, ← sameLength, length_ofNat_eq_one_iff]
      rw [ofNat_of_lt small, ofNat_of_lt smallM, compare_digitChar small smallM]
    · have large : ¬ m < 10 := by
        rwa [← length_ofNat_eq_one_iff, ← sameLength, length_ofNat_eq_one_iff]
      rw [ofNat_of_ge (Nat.le_of_not_lt small),
        ofNat_of_ge (Nat.le_of_not_lt large)] at sameLength ⊢
      have shorter : (ofNat (n / 10)).length = (ofNat (m / 10)).length := by simpa using sameLength
      rw [compare_append shorter, ih (n / 10) (by omega) shorter,
        compare_digitChar (Nat.mod_lt n (by decide)) (Nat.mod_lt m (by decide)),
        ← compareNat_eq_then]

/-- Of two numbers the smaller one stands first in a dictionary if and only if it is not above the
number that as many first digits of the larger one make. -/
theorem compare_ofNat_of_lt {n m : Nat} (lt : n < m) :
    compare (ofNat n) (ofNat m) = if n ≤ leading n m then .lt else .gt := by
  obtain ⟨last, length, whole⟩ := ofNat_eq_leading_append (Nat.le_of_lt lt)
  have sameLength := (length_ofNat_leading (Nat.le_of_lt lt)).symm
  have split : compare (ofNat n) (ofNat m) =
      (Ord.compare n (leading n m)).then (compare [] last) := by
    have step := compare_append sameLength [] last
    rwa [List.append_nil, ← whole, compare_ofNat sameLength] at step
  rw [split]
  cases last with
  | nil =>
    -- They have as many digits: all of `m` is left.
    have all : leading n m = m := by
      rw [leading, ← length]
      rfl
    rw [all, if_pos (Nat.le_of_lt lt), Nat.compare_eq_lt.mpr lt]
    rfl
  | cons d ds =>
    rcases Nat.lt_trichotomy n (leading n m) with less | same | more
    · rw [if_pos (Nat.le_of_lt less), Nat.compare_eq_lt.mpr less]
      rfl
    · rw [if_pos (Nat.le_of_eq same), Nat.compare_eq_eq.mpr same]
      rfl
    · rw [if_neg (Nat.not_le.mpr more), Nat.compare_eq_gt.mpr more]
      rfl

end Text

/-- A number below two to the 64th and a way to write it in decimal, zeros in front allowed. -/
structure Numeral where
  text : Text
  value : Nat
  reads : Text.digits? 10 text = some value
  small : value < Text.wordLimit

namespace Numeral

/-- A number as it is written without zeros in front. -/
def ofNat (n : Nat) (small : n < Text.wordLimit) : Numeral :=
  ⟨Text.ofNat n, n, Text.digits?_ofNat n, small⟩

theorem text_ne_nil (n : Numeral) : n.text ≠ [] := (Text.digits?_eq_some_iff.mp n.reads).1

theorem isDigit (n : Numeral) {c : Char} (h : c ∈ n.text) : c.isDigit = true :=
  (Text.digits?_eq_some_iff.mp n.reads).2.1 c h

theorem wordSucc_value {n n' : Numeral} (next : n'.value = n.value + 1) :
    Text.wordSucc n.value = n.value + 1 :=
  Text.wordSucc_of_lt (next ▸ n'.small)

end Numeral

end ConfigTree
