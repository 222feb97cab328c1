import ConfigTree.Proofs.Glob.Language
import ConfigTree.Proofs.Text.Utf8

/-!
# Wildcards

What `*` and `?` stand for in a text: any part of it, and one character of it. Patterns are matched
byte by byte. So the wildcards between two other characters count together: without a star they ask
for as many bytes as there are question marks, with one for at least as many. Bytes and characters
agree where a run of wildcards asks for nothing or, with a star, for one.
-/

namespace ConfigTree.Glob

/-- The text divides along the wildcards: each `*` stands for some part, each `?` for one character,
and every other character for itself. -/
inductive StandsFor : Text → Text → Prop where
  | nil : StandsFor [] []
  | star (part : Text) {k c : Text} (rest : StandsFor k c) : StandsFor ('*' :: k) (part ++ c)
  | any (x : Char) {k c : Text} (rest : StandsFor k c) : StandsFor ('?' :: k) (x :: c)
  | literal {x : Char} {k c : Text} (notStar : x ≠ '*') (notAny : x ≠ '?') (rest : StandsFor k c) :
    StandsFor (x :: k) (x :: c)

/-- What a character is as a token where it is a wildcard or stands for itself. -/
def wildcardToken (x : Char) : Token :=
  if x = '*' then .star else if x = '?' then .any else .literal x

variable {k c : Text} {x : Char} {s : List UInt8}

theorem standsFor_nil_iff : StandsFor [] c ↔ c = [] := by
  constructor
  · rintro ⟨⟩
    rfl
  · rintro rfl
    exact .nil

theorem standsFor_star_iff : StandsFor ('*' :: k) c ↔ ∃ u v, c = u ++ v ∧ StandsFor k v := by
  constructor
  · intro stands
    cases stands with
    | star part rest => exact ⟨part, _, rfl, rest⟩
    | literal notStar => exact absurd rfl notStar
  · rintro ⟨u, v, rfl, rest⟩
    exact .star u rest

theorem standsFor_any_iff : StandsFor ('?' :: k) c ↔ ∃ y v, c = y :: v ∧ StandsFor k v := by
  constructor
  · intro stands
    cases stands with
    | any y rest => exact ⟨y, _, rfl, rest⟩
    | literal _ notAny => exact absurd rfl notAny
  · rintro ⟨y, v, rfl, rest⟩
    exact .any y rest

theorem standsFor_literal_iff (notStar : x ≠ '*') (notAny : x ≠ '?') :
    StandsFor (x :: k) c ↔ ∃ v, c = x :: v ∧ StandsFor k v := by
  constructor
  · intro stands
    cases stands with
    | star => exact absurd rfl notStar
    | any => exact absurd rfl notAny
    | literal _ _ rest => exact ⟨_, rfl, rest⟩
  · rintro ⟨v, rfl, rest⟩
    exact .literal notStar notAny rest

theorem standsFor_iff_eq (noStar : '*' ∉ k) (noAny : '?' ∉ k) : StandsFor k c ↔ k = c := by
  induction k generalizing c with
  | nil => exact standsFor_nil_iff.trans eq_comm
  | cons x k ih =>
    rw [List.mem_cons, not_or] at noStar noAny
    rw [standsFor_literal_iff (Ne.symm noStar.1) (Ne.symm noAny.1)]
    simp only [ih noStar.2 noAny.2]
    exact ⟨fun ⟨v, same, rest⟩ => by rw [same, rest], fun same => ⟨k, same.symm, rfl⟩⟩

/-- The byte strings that wildcards and other characters stand for as tokens. -/
def BytesStandFor (k : Text) : List UInt8 → Prop := PatternAccepts false (k.map wildcardToken)

theorem bytesStandFor_nil_iff : BytesStandFor [] s ↔ s = [] := Iff.rfl

theorem bytesStandFor_star_iff :
    BytesStandFor ('*' :: k) s ↔ ∃ u v, s = u ++ v ∧ BytesStandFor k v := by
  simp [BytesStandFor, wildcardToken, PatternAccepts, Token.Accepts]

theorem bytesStandFor_any_iff :
    BytesStandFor ('?' :: k) s ↔ ∃ b v, s = b :: v ∧ BytesStandFor k v := by
  have own (u : List UInt8) : (wildcardToken '?').Accepts false u ↔ ∃ b, u = [b] := by
    simp [wildcardToken, Token.Accepts]
  rw [BytesStandFor, List.map_cons, PatternAccepts]
  constructor
  · rintro ⟨u, v, rfl, begins, rest⟩
    obtain ⟨b, rfl⟩ := (own u).mp begins
    exact ⟨b, v, rfl, rest⟩
  · rintro ⟨b, v, rfl, rest⟩
    exact ⟨[b], v, rfl, (own [b]).mpr ⟨b, rfl⟩, rest⟩

theorem bytesStandFor_literal_iff (notStar : x ≠ '*') (notAny : x ≠ '?') :
    BytesStandFor (x :: k) s ↔ ∃ v, s = String.utf8EncodeChar x ++ v ∧ BytesStandFor k v := by
  have own : wildcardToken x = .literal x := by rw [wildcardToken, if_neg notStar, if_neg notAny]
  rw [BytesStandFor, List.map_cons, own, PatternAccepts]
  simp only [Token.Accepts]
  constructor
  · rintro ⟨u, v, rfl, rfl, rest⟩
    exact ⟨v, rfl, rest⟩
  · rintro ⟨v, rfl, rest⟩
    exact ⟨_, v, rfl, rfl, rest⟩

/-- Wildcards that stand next to each other: the number of question marks, and whether there is
a star. -/
structure Run where
  marks : Nat
  star : Bool
deriving DecidableEq, Repr

namespace Run

variable {α : Type} {p : List α → Prop} {l : List α}

def empty : Run := ⟨0, false⟩

def addStar (r : Run) : Run := { r with star := true }

def addMark (r : Run) : Run := { r with marks := r.marks + 1 }

/-- What the wildcards stand for together may have length `n`. -/
def Fits (r : Run) (n : Nat) : Prop := if r.star then r.marks ≤ n else n = r.marks

/-- A list begins with what the wildcards stand for, and goes on with one of the kind `p`. -/
def Before (r : Run) (p : List α → Prop) (l : List α) : Prop :=
  ∃ u v, l = u ++ v ∧ r.Fits u.length ∧ p v

theorem before_congr {r : Run} {q : List α → Prop} (same : ∀ l, p l ↔ q l) :
    r.Before p l ↔ r.Before q l := by
  simp only [Before, same]

theorem empty_before : empty.Before p l ↔ p l := by
  constructor
  · rintro ⟨u, v, rfl, fits, follows⟩
    obtain rfl : u = [] := List.eq_nil_of_length_eq_zero fits
    exact follows
  · exact fun follows => ⟨[], l, rfl, rfl, follows⟩

theorem addStar_before (r : Run) :
    r.addStar.Before p l ↔ r.Before (fun l => ∃ u v, l = u ++ v ∧ p v) l := by
  constructor
  · rintro ⟨u, v, rfl, fits, follows⟩
    have enough : r.marks ≤ u.length := fits
    refine ⟨u.take r.marks, u.drop r.marks ++ v, ?_, ?_, u.drop r.marks, v, rfl, follows⟩
    · rw [← List.append_assoc, List.take_append_drop]
    · rw [List.length_take, Nat.min_eq_left enough, Fits]
      split <;> simp
  · rintro ⟨u, _, rfl, fits, u', v, rfl, follows⟩
    refine ⟨u ++ u', v, (List.append_assoc u u' v).symm, ?_, follows⟩
    have enough : r.marks ≤ u.length := by
      rw [Fits] at fits
      split at fits <;> omega
    exact Nat.le_trans enough (by simp)

theorem fits_addMark_succ (r : Run) (n : Nat) : r.addMark.Fits (n + 1) ↔ r.Fits n := by
  obtain ⟨marks, star⟩ := r
  cases star <;> simp [Fits, addMark]

theorem not_fits_addMark_zero (r : Run) : ¬ r.addMark.Fits 0 := by
  obtain ⟨marks, star⟩ := r
  cases star <;> simp [Fits, addMark]

theorem addMark_before (r : Run) :
    r.addMark.Before p l ↔ r.Before (fun l => ∃ x v, l = x :: v ∧ p v) l := by
  constructor
  · rintro ⟨u, v, rfl, fits, follows⟩
    rcases List.eq_nil_or_concat u with rfl | ⟨u, x, rfl⟩
    · exact absurd fits r.not_fits_addMark_zero
    · rw [List.length_concat, fits_addMark_succ] at fits
      exact ⟨u, x :: v, by simp, fits, x, v, rfl, follows⟩
  · rintro ⟨u, _, rfl, fits, x, v, rfl, follows⟩
    refine ⟨u ++ [x], v, by simp, ?_, follows⟩
    rw [List.length_append, List.length_singleton]
    exact r.fits_addMark_succ _ |>.mpr fits

/-- The wildcards ask for nothing, or with a star for one character. -/
def Clear (r : Run) : Prop := r.marks = 0 ∨ r.marks = 1 ∧ r.star = true

instance (r : Run) : Decidable r.Clear :=
  inferInstanceAs (Decidable (r.marks = 0 ∨ r.marks = 1 ∧ r.star = true))

/-- The runs of wildcards from one that has begun as `r`: one at the start, one at the end, and one
between each two other characters, empty or not. -/
def runsFrom (r : Run) : Text → List Run
  | [] => [r]
  | x :: k =>
    if x = '*' then runsFrom r.addStar k
    else if x = '?' then runsFrom r.addMark k
    else r :: runsFrom empty k

theorem runsFrom_literal (r : Run) {x : Char} (notStar : x ≠ '*') (notAny : x ≠ '?') (k : Text) :
    runsFrom r (x :: k) = r :: runsFrom empty k := by
  rw [runsFrom, if_neg notStar, if_neg notAny]

/-- Where a run is clear, what it stands for may be counted in bytes. -/
theorem Clear.fits_length_utf8 {r : Run} (clear : r.Clear) (c : Text) :
    r.Fits c.utf8.length ↔ r.Fits c.length := by
  have zero : c.utf8.length = 0 ↔ c.length = 0 := by
    rw [List.length_eq_zero_iff, List.length_eq_zero_iff, Text.utf8_eq_nil_iff]
  obtain ⟨marks, star⟩ := r
  rcases clear with rfl | ⟨rfl, rfl⟩
  · cases star <;> simp [Fits, zero]
  · simp only [Fits, if_true]
    omega

end Run

open Run

variable {r : Run}

theorem before_standsFor_star :
    r.Before (StandsFor ('*' :: k)) c ↔ r.addStar.Before (StandsFor k) c :=
  (before_congr fun _ => standsFor_star_iff).trans r.addStar_before.symm

theorem before_standsFor_any :
    r.Before (StandsFor ('?' :: k)) c ↔ r.addMark.Before (StandsFor k) c :=
  (before_congr fun _ => standsFor_any_iff).trans r.addMark_before.symm

theorem before_standsFor_literal (notStar : x ≠ '*') (notAny : x ≠ '?') :
    r.Before (StandsFor (x :: k)) c ↔
      ∃ part rest : Text, c = part ++ x :: rest ∧ r.Fits part.length ∧ StandsFor k rest := by
  rw [before_congr fun _ => standsFor_literal_iff notStar notAny]
  constructor
  · rintro ⟨part, _, rfl, fits, rest, rfl, stands⟩
    exact ⟨part, rest, rfl, fits, stands⟩
  · rintro ⟨part, rest, rfl, fits, stands⟩
    exact ⟨part, x :: rest, rfl, fits, rest, rfl, stands⟩

theorem before_bytesStandFor_star :
    r.Before (BytesStandFor ('*' :: k)) s ↔ r.addStar.Before (BytesStandFor k) s :=
  (before_congr fun _ => bytesStandFor_star_iff).trans r.addStar_before.symm

theorem before_bytesStandFor_any :
    r.Before (BytesStandFor ('?' :: k)) s ↔ r.addMark.Before (BytesStandFor k) s :=
  (before_congr fun _ => bytesStandFor_any_iff).trans r.addMark_before.symm

/-- The bytes of a character between wildcards are those of a character of the text. -/
theorem before_bytesStandFor_literal (notStar : x ≠ '*') (notAny : x ≠ '?') :
    r.Before (BytesStandFor (x :: k)) c.utf8 ↔
      ∃ part rest : Text, c = part ++ x :: rest ∧ r.Fits part.utf8.length ∧
        BytesStandFor k rest.utf8 := by
  rw [before_congr fun _ => bytesStandFor_literal_iff notStar notAny]
  constructor
  · rintro ⟨u, _, same, fits, v, rfl, stands⟩
    obtain ⟨part, rest, rfl, rfl, rfl⟩ := Text.exists_of_utf8_eq_append same
    exact ⟨part, rest, rfl, fits, stands⟩
  · rintro ⟨part, rest, rfl, fits, stands⟩
    exact ⟨part.utf8, _, by simp, fits, Text.utf8 rest, rfl, stands⟩

/-- Where all runs are clear, bytes and characters come to the same. -/
theorem before_bytesStandFor_iff (clear : ∀ run ∈ runsFrom r k, run.Clear) :
    r.Before (BytesStandFor k) c.utf8 ↔ r.Before (StandsFor k) c := by
  induction k generalizing r c with
  | nil =>
    have own : r.Clear := clear r (List.mem_singleton_self r)
    simp [Before, bytesStandFor_nil_iff, standsFor_nil_iff, own.fits_length_utf8]
  | cons x k ih =>
    by_cases star : x = '*'
    · subst star
      rw [before_bytesStandFor_star, before_standsFor_star, ih clear]
    · by_cases any : x = '?'
      · subst any
        rw [before_bytesStandFor_any, before_standsFor_any, ih clear]
      · rw [runsFrom_literal r star any, List.forall_mem_cons] at clear
        have behind (rest : Text) : BytesStandFor k rest.utf8 ↔ StandsFor k rest :=
          empty_before.symm.trans ((ih clear.2).trans empty_before)
        simp only [before_bytesStandFor_literal star any, before_standsFor_literal star any, behind,
          clear.1.fits_length_utf8]

theorem bytesStandFor_iff (clear : ∀ run ∈ runsFrom empty k, run.Clear) :
    BytesStandFor k c.utf8 ↔ StandsFor k c :=
  empty_before.symm.trans ((before_bytesStandFor_iff clear).trans empty_before)

/-! ## Where bytes and characters differ -/

/-- The text with `y` for each question mark, and nothing for the stars. -/
def fill (y : Char) : Text → Text
  | [] => []
  | x :: k => if x = '*' then fill y k else (if x = '?' then y else x) :: fill y k

theorem standsFor_fill (y : Char) (k : Text) : StandsFor k (fill y k) := by
  induction k with
  | nil => exact .nil
  | cons x k ih =>
    by_cases star : x = '*'
    · subst star
      exact .star [] ih
    · by_cases any : x = '?'
      · subst any
        exact .any y ih
      · rw [fill, if_neg star, if_neg any]
        exact .literal star any ih

theorem not_mem_fill {y : Char} (notStar : y ≠ '*') (notAny : y ≠ '?') (k : Text) :
    '*' ∉ fill y k ∧ '?' ∉ fill y k := by
  induction k with
  | nil => simp [fill]
  | cons x k ih =>
    rw [fill]
    split
    · exact ih
    · split <;> simp_all [eq_comm]

/-- The least number of characters that the text stands for. -/
def leastLength (k : Text) : Nat := k.countP (· ≠ '*')

/-- Characters that the text has for itself are in all that it stands for. -/
theorem StandsFor.countP_le {p q : Char → Bool} (star : p '*' = false)
    (any : p '?' = true → ∀ x, q x = true) (own : ∀ x, p x = true → q x = true)
    (stands : StandsFor k c) : k.countP p ≤ c.countP q := by
  induction stands with
  | nil => exact Nat.le_refl 0
  | star part rest ih =>
    rw [List.countP_cons, star, List.countP_append]
    exact Nat.le_add_left_of_le ih
  | any x rest ih =>
    rw [List.countP_cons, List.countP_cons]
    by_cases counts : p '?' = true
    · rw [if_pos counts, if_pos (any counts x)]
      exact Nat.succ_le_succ ih
    · rw [if_neg counts]
      exact Nat.le_add_right_of_le ih
  | @literal x k c notStar notAny rest ih =>
    rw [List.countP_cons, List.countP_cons]
    by_cases counts : p x = true
    · rw [if_pos counts, if_pos (own x counts)]
      exact Nat.succ_le_succ ih
    · rw [if_neg counts]
      exact Nat.le_add_right_of_le ih

theorem StandsFor.leastLength_le (stands : StandsFor k c) : leastLength k ≤ c.length := by
  have least := stands.countP_le (p := fun x => decide (x ≠ '*')) (q := fun _ => true) (by decide)
    (fun _ _ => rfl) (fun _ _ => rfl)
  rwa [List.countP_true] at least

/-- Bytes of fewer characters, if there are two or more. -/
theorem exists_length_utf8_eq (n : Nat) :
    ∃ part : Text, part.utf8.length = n ∧ part.length ≤ n ∧ (part.length = n → n ≤ 1) := by
  have plain (n : Nat) : (Text.utf8 (List.replicate n 'x')).length = n := by
    induction n with
    | zero => rfl
    | succ n ih =>
      rw [List.replicate_succ, Text.utf8_cons, List.length_append, ih,
        show (String.utf8EncodeChar 'x').length = 1 by decide, Nat.add_comm]
  match n with
  | 0 => exact ⟨[], rfl, Nat.le_refl 0, fun _ => Nat.zero_le 1⟩
  | 1 => exact ⟨['x'], by decide, Nat.le_refl 1, fun _ => Nat.le_refl 1⟩
  | n + 2 =>
    refine ⟨'é' :: List.replicate n 'x', ?_, by simp, by simp⟩
    rw [Text.utf8_cons, List.length_append, plain,
      show (String.utf8EncodeChar 'é').length = 2 by decide, Nat.add_comm]

theorem fits_marks (r : Run) : r.Fits r.marks := by
  rw [Fits]
  split <;> simp

/-- There are bytes that wildcards stand for with as few characters as they ask for, and with fewer
if a run has two question marks. -/
theorem exists_shorter (r : Run) (k : Text) :
    ∃ c : Text, r.Before (BytesStandFor k) c.utf8 ∧ c.length ≤ r.marks + leastLength k ∧
      (c.length = r.marks + leastLength k → ∀ run ∈ runsFrom r k, run.marks ≤ 1) := by
  induction k generalizing r with
  | nil =>
    obtain ⟨part, bytes, short, tight⟩ := exists_length_utf8_eq r.marks
    refine ⟨part, ⟨part.utf8, [], by simp, bytes ▸ fits_marks r, rfl⟩, short,
      fun full run isIn => ?_⟩
    rw [List.mem_singleton.mp isIn]
    exact tight full
  | cons x k ih =>
    by_cases star : x = '*'
    · subst star
      obtain ⟨c, stands, short, tight⟩ := ih r.addStar
      exact ⟨c, before_bytesStandFor_star.mpr stands, short, tight⟩
    · by_cases any : x = '?'
      · subst any
        obtain ⟨c, stands, short, tight⟩ := ih r.addMark
        have more : r.addMark.marks + leastLength k = r.marks + leastLength ('?' :: k) := by
          simp [leastLength, addMark]
          omega
        rw [more] at short tight
        exact ⟨c, before_bytesStandFor_any.mpr stands, short, tight⟩
      · obtain ⟨part, bytes, shortHere, tightHere⟩ := exists_length_utf8_eq r.marks
        obtain ⟨rest, stands, short, tight⟩ := ih empty
        have more : leastLength (x :: k) = leastLength k + 1 := by
          simp [leastLength, star]
        have none : empty.marks = 0 := rfl
        have whole : (part ++ x :: rest).length = part.length + (rest.length + 1) := by simp
        refine ⟨part ++ x :: rest, ?_, by omega, fun full => ?_⟩
        · rw [before_bytesStandFor_literal star any]
          exact ⟨part, rest, rfl, bytes ▸ fits_marks r, empty_before.mp stands⟩
        · rw [runsFrom_literal r star any, List.forall_mem_cons]
          exact ⟨tightHere (by omega), tight (by omega)⟩

/-- A character of one byte. -/
def IsSingle (x : Char) : Prop := x.utf8Size = 1

instance (x : Char) : Decidable (IsSingle x) := inferInstanceAs (Decidable (x.utf8Size = 1))

/-- The number of characters of one byte that stand for themselves. -/
def singles (k : Text) : Nat := k.countP fun x => x ≠ '*' ∧ x ≠ '?' ∧ IsSingle x

theorem countP_isSingle_pos {part : Text} (bytes : part.utf8.length = 1) :
    0 < part.countP IsSingle := by
  cases part with
  | nil => cases bytes
  | cons y part =>
    have size := y.utf8Size_pos
    rw [Text.utf8_cons, List.length_append, String.length_utf8EncodeChar] at bytes
    have own : IsSingle y := by
      rw [IsSingle]
      omega
    simp [own]

/-- The bytes that wildcards stand for have all characters of one byte that stand for themselves,
and one more for each question mark without a star that is alone in its run. -/
theorem singles_le_countP {r : Run} {k c : Text} (stands : r.Before (BytesStandFor k) c.utf8) :
    singles k ≤ c.countP IsSingle ∧
      (c.countP IsSingle = singles k →
        ∀ run ∈ runsFrom r k, ¬ (run.marks = 1 ∧ run.star = false)) := by
  have alone {r : Run} {part : Text} (fits : r.Fits part.utf8.length)
      (none : part.countP IsSingle = 0) : ¬ (r.marks = 1 ∧ r.star = false) := by
    rintro ⟨one, noStar⟩
    rw [Fits, if_neg (by simp [noStar]), one] at fits
    exact absurd (countP_isSingle_pos fits) (by omega)
  induction k generalizing r c with
  | nil =>
    obtain ⟨u, v, same, fits, rfl⟩ := stands
    rw [List.append_nil] at same
    rw [← same] at fits
    refine ⟨Nat.zero_le _, fun none run isIn => ?_⟩
    rw [List.mem_singleton.mp isIn]
    exact alone fits none
  | cons x k ih =>
    by_cases star : x = '*'
    · subst star
      exact ih (before_bytesStandFor_star.mp stands)
    · by_cases any : x = '?'
      · subst any
        exact ih (before_bytesStandFor_any.mp stands)
      · obtain ⟨part, rest, rfl, fits, stands⟩ := (before_bytesStandFor_literal star any).mp stands
        obtain ⟨enough, tight⟩ := ih (empty_before.mpr stands)
        have here : singles (x :: k) = singles k + if IsSingle x then 1 else 0 := by
          simp [singles, List.countP_cons, star, any]
        have there : (part ++ x :: rest).countP IsSingle =
            part.countP IsSingle + (rest.countP IsSingle + if IsSingle x then 1 else 0) := by
          simp [List.countP_append, List.countP_cons]
        rw [here, there, runsFrom_literal r star any, List.forall_mem_cons]
        exact ⟨by omega, fun full => ⟨alone fits (by omega), tight (by omega)⟩⟩

theorem countP_fill (k : Text) : (fill 'é' k).countP IsSingle = singles k := by
  induction k with
  | nil => rfl
  | cons x k ih =>
    have wide : ¬ IsSingle 'é' := by decide
    by_cases star : x = '*'
    · subst star
      exact ih
    · by_cases any : x = '?'
      · subst any
        simpa [fill, singles, wide] using ih
      · rw [fill, if_neg star, if_neg any, singles, List.countP_cons, List.countP_cons, ih, singles]
        simp [star, any]

/-- Where bytes and characters come to the same, all runs are clear. -/
theorem clear_of_forall (same : ∀ c : Text, BytesStandFor k c.utf8 ↔ StandsFor k c) :
    ∀ run ∈ runsFrom empty k, run.Clear := by
  obtain ⟨c, stands, short, atMostOne⟩ := exists_shorter empty k
  have enough := ((same c).mp (empty_before.mp stands)).leastLength_le
  have none : empty.marks = 0 := rfl
  obtain ⟨-, notAlone⟩ := singles_le_countP (empty_before.mpr ((same _).mpr (standsFor_fill 'é' k)))
  intro run isIn
  have marks := atMostOne (by omega) run isIn
  have star := notAlone (countP_fill k) run isIn
  rcases Nat.le_one_iff_eq_zero_or_eq_one.mp marks with zero | one
  · exact .inl zero
  · exact .inr ⟨one, by simpa [one] using star⟩

end ConfigTree.Glob
