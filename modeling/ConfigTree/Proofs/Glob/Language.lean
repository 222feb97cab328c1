import ConfigTree.Glob.Pattern

/-!
# The language of a pattern

The byte strings that a pattern stands for, token by token, without the text that is matched. The
places of a text that a matcher finds are those from which such a string leads to a place that fits.
-/

namespace ConfigTree.Glob

mutual

/-- The byte strings that a token stands for. -/
def Token.Accepts (inPath : Bool) : Token → List UInt8 → Prop
  | .literal c, s => s = String.utf8EncodeChar c
  | .any, s => ∃ b, s = [b] ∧ ¬ (inPath = true ∧ b = slash)
  | .star, s => ∀ b ∈ s, ¬ (inPath = true ∧ b = slash)
  | .leadingDirectories, s => s = [] ∨ ∃ u, s = u ++ [slash]
  | .innerDirectories, s => s = [slash] ∨ ∃ u, s = slash :: (u ++ [slash])
  | .inside, s => ∃ u, s = slash :: u
  | .charClass negated ranges, s => ∃ b, s = [b] ∧ inRanges ranges b ≠ negated
  | .alternatives patterns, s => if allVoid patterns then s = [] else AnyAccepts inPath patterns s

/-- The byte strings that one of the patterns that stand for something stands for. -/
def AnyAccepts (inPath : Bool) : List (List Token) → List UInt8 → Prop
  | [], _ => False
  | p :: ps, s => (patternIsVoid p = false ∧ PatternAccepts inPath p s) ∨ AnyAccepts inPath ps s

/-- The byte strings that tokens stand for one after the other. -/
def PatternAccepts (inPath : Bool) : List Token → List UInt8 → Prop
  | [], s => s = []
  | t :: ts, s => ∃ u v, s = u ++ v ∧ t.Accepts inPath u ∧ PatternAccepts inPath ts v

end

/-- A string of the first kind and then one of the second. -/
def Then (first second : List UInt8 → Prop) (s : List UInt8) : Prop :=
  ∃ u v, s = u ++ v ∧ first u ∧ second v

section Then

variable {first first' second third : List UInt8 → Prop} {s : List UInt8}

theorem then_congr_left (same : ∀ u, first u ↔ first' u) :
    Then first third s ↔ Then first' third s := by
  simp only [Then, same]

theorem then_empty : Then (· = []) third s ↔ third s := by
  constructor
  · rintro ⟨_, v, rfl, rfl, follows⟩
    exact follows
  · exact fun follows => ⟨[], s, rfl, rfl, follows⟩

theorem then_assoc : Then first (Then second third) s ↔ Then (Then first second) third s := by
  constructor
  · rintro ⟨u, _, rfl, begins, v, w, rfl, inside, follows⟩
    exact ⟨u ++ v, w, (List.append_assoc u v w).symm, ⟨u, v, rfl, begins, inside⟩, follows⟩
  · rintro ⟨_, w, rfl, ⟨u, v, rfl, begins, inside⟩, follows⟩
    exact ⟨u, v ++ w, List.append_assoc u v w, begins, v, w, rfl, inside, follows⟩

theorem or_then :
    Then first third s ∨ Then first' third s ↔ Then (fun u => first u ∨ first' u) third s := by
  simp only [Then, or_and_right, and_or_left, exists_or]

end Then

namespace Places

variable {s : List UInt8} {places others : Places s} {k l : List UInt8 → Prop}

/-- The places that fit are those before which `k` holds of the bytes that follow. -/
def Marks : {s : List UInt8} → Places s → (List UInt8 → Prop) → Prop
  | _, last fits, k => fits = true ↔ k []
  | _, @next b bs fits rest, k => (fits = true ↔ k (b :: bs)) ∧ rest.Marks k

theorem Marks.fits (marks : places.Marks k) : places.fits = true ↔ k s := by
  cases places with
  | last f => exact marks
  | next f rest => exact marks.1

theorem Marks.congr (same : ∀ r, k r ↔ l r) (marks : places.Marks k) : places.Marks l := by
  induction places with
  | last f => exact marks.trans (same [])
  | next f rest ih => exact ⟨marks.1.trans (same _), ih marks.2⟩

theorem marks_ofPred (p : List UInt8 → Bool) (s : List UInt8) :
    (ofPred p s).Marks (p · = true) := by
  induction s with
  | nil => exact Iff.rfl
  | cons b bs ih => exact ⟨Iff.rfl, ih⟩

theorem Marks.or {others : Places s} (marks : places.Marks k) (marks' : others.Marks l) :
    (places.or others).Marks fun r => k r ∨ l r := by
  induction places with
  | last f =>
    cases others with
    | last g => simpa [Places.or, Marks] using or_congr marks marks'
  | next f rest ih =>
    cases others with
    | next g rest' =>
      refine ⟨?_, ih marks.2 marks'.2⟩
      simpa using or_congr marks.1 marks'.1

theorem Marks.afterOne (p : UInt8 → Bool) (marks : places.Marks k) :
    (places.afterOne p).Marks (Then (fun u => ∃ b, u = [b] ∧ p b = true) k) := by
  induction places with
  | last f =>
    refine iff_of_false Bool.false_ne_true ?_
    rintro ⟨_, v, empty, ⟨b, rfl, -⟩, -⟩
    cases empty
  | @next b bs f rest ih =>
    refine ⟨?_, ih marks.2⟩
    rw [Bool.and_eq_true, marks.2.fits]
    constructor
    · rintro ⟨own, follows⟩
      exact ⟨[b], bs, rfl, ⟨b, rfl, own⟩, follows⟩
    · rintro ⟨_, v, same, ⟨b', rfl, own⟩, follows⟩
      obtain ⟨rfl, rfl⟩ := List.cons.inj same
      exact ⟨own, follows⟩

theorem Marks.afterSome (p : UInt8 → Bool) (marks : places.Marks k) :
    (places.afterSome p).Marks (Then (fun u => ∀ b ∈ u, p b = true) k) := by
  induction places with
  | last f =>
    refine marks.trans ⟨fun follows => ⟨[], [], rfl, by simp, follows⟩, ?_⟩
    rintro ⟨u, v, empty, -, follows⟩
    exact (List.append_eq_nil_iff.mp empty.symm).2 ▸ follows
  | @next b bs f rest ih =>
    have behind := ih marks.2
    refine ⟨?_, behind⟩
    rw [Bool.or_eq_true, Bool.and_eq_true, marks.1, behind.fits]
    constructor
    · rintro (here | ⟨own, u, v, rfl, all, follows⟩)
      · exact ⟨[], b :: bs, rfl, by simp, here⟩
      · exact ⟨b :: u, v, rfl, by simpa [own] using all, follows⟩
    · rintro ⟨u, v, same, all, follows⟩
      cases u with
      | nil => exact .inl (same ▸ follows)
      | cons b' u =>
        obtain ⟨rfl, rfl⟩ := List.cons.inj same
        rw [List.forall_mem_cons] at all
        exact .inr ⟨all.1, u, v, rfl, all.2, follows⟩

theorem Marks.afterBytes (bs : List UInt8) (marks : places.Marks k) :
    (places.afterBytes bs).Marks (Then (· = bs) k) := by
  induction bs with
  | nil => exact marks.congr fun r => then_empty.symm
  | cons b bs ih =>
    refine (ih.afterOne (· == b)).congr fun r => then_assoc.trans (then_congr_left fun u => ?_)
    simp [Then]

theorem not_slash_iff (inPath : Bool) (b : UInt8) :
    (!(inPath && b == slash)) = true ↔ ¬ (inPath = true ∧ b = slash) := by
  cases inPath <;> simp

/-- Before directories at the start: at once, or with a slash in front. -/
theorem Marks.directories (inPath : Bool) (marks : places.Marks k) :
    (places.or (places.afterOne (· == slash)).afterAny).Marks
      (Then (Token.leadingDirectories.Accepts inPath) k) := by
  refine (marks.or ((marks.afterOne _).afterSome _)).congr fun r => ?_
  have atOnce : k r ↔ Then (· = []) k r := then_empty.symm
  rw [then_assoc, atOnce, or_then]
  refine then_congr_left fun u => ?_
  simp [Then, Token.Accepts]

mutual

/-- The places before a token are those from which a string of the token leads to a place. -/
theorem Marks.token (inPath : Bool) {s : List UInt8} {places : Places s} {k : List UInt8 → Prop}
    (marks : places.Marks k) :
    (t : Token) → (t.before inPath places).Marks (Then (t.Accepts inPath) k)
  | .literal c => by
    rw [Token.before]
    exact (marks.afterBytes _).congr fun r => by simp only [Then, Token.Accepts]
  | .any => by
    rw [Token.before]
    exact (marks.afterOne _).congr fun r => by simp only [Then, Token.Accepts, not_slash_iff]
  | .star => by
    rw [Token.before]
    exact (marks.afterSome _).congr fun r => by simp only [Then, Token.Accepts, not_slash_iff]
  | .leadingDirectories => by
    rw [Token.before]
    exact marks.directories inPath
  | .innerDirectories => by
    rw [Token.before]
    refine ((marks.directories inPath).afterOne _).congr fun r => ?_
    rw [then_assoc]
    refine then_congr_left fun u => ?_
    simp only [Then, Token.Accepts, beq_iff_eq]
    constructor
    · rintro ⟨_, _, rfl, ⟨_, rfl, rfl⟩, rfl | ⟨v, rfl⟩⟩
      · exact .inl rfl
      · exact .inr ⟨v, rfl⟩
    · rintro (rfl | ⟨v, rfl⟩)
      · exact ⟨[slash], [], rfl, ⟨slash, rfl, rfl⟩, .inl rfl⟩
      · exact ⟨[slash], v ++ [slash], rfl, ⟨slash, rfl, rfl⟩, .inr ⟨v, rfl⟩⟩
  | .inside => by
    rw [Token.before]
    refine ((marks.afterSome _).afterOne _).congr fun r => ?_
    rw [then_assoc]
    refine then_congr_left fun u => ?_
    simp [Then, Token.Accepts]
  | .charClass negated ranges => by
    rw [Token.before]
    exact (marks.afterOne _).congr fun r => by simp only [Then, Token.Accepts, bne_iff_ne]
  | .alternatives patterns => by
    rw [Token.before]
    split
    · next void =>
      refine marks.congr fun r => ?_
      simp only [Token.Accepts, void, if_true]
      exact then_empty.symm
    · next void =>
      refine (marks.anyOf inPath patterns).congr fun r => ?_
      simp only [Token.Accepts, void]
      rfl

theorem Marks.anyOf (inPath : Bool) {s : List UInt8} {places : Places s} {k : List UInt8 → Prop}
    (marks : places.Marks k) : (ps : List (List Token)) →
      (anyBefore inPath places ps).Marks (Then (AnyAccepts inPath ps) k)
  | [] => by
    rw [anyBefore]
    refine (marks_ofPred _ s).congr fun r => ?_
    simp [Then, AnyAccepts]
  | p :: ps => by
    have others := marks.anyOf inPath ps
    rw [anyBefore]
    split
    · next void =>
      refine others.congr fun r => then_congr_left fun u => ?_
      simp [AnyAccepts, void]
    · next stands =>
      refine ((marks.pattern inPath p).or others).congr fun r => or_then.trans ?_
      refine then_congr_left fun u => ?_
      simp [AnyAccepts, stands]

theorem Marks.pattern (inPath : Bool) {s : List UInt8} {places : Places s} {k : List UInt8 → Prop}
    (marks : places.Marks k) : (p : List Token) →
      (patternBefore inPath places p).Marks (Then (PatternAccepts inPath p) k)
  | [] => by
    rw [patternBefore]
    exact marks.congr fun r => then_empty.symm
  | t :: ts => by
    rw [patternBefore]
    exact ((marks.pattern inPath ts).token inPath t).congr fun r => then_assoc

end

end Places

/-- A pattern matches a text if it stands for its bytes. The pattern of leading directories alone
matches every text. -/
theorem Pattern.isMatch_iff (inPath : Bool) (p : Pattern) (t : Text) :
    p.isMatch inPath t = true ↔
      p = [.leadingDirectories] ∨ PatternAccepts inPath p t.utf8 := by
  have marked := ((Places.marks_ofPred List.isEmpty t.utf8).pattern inPath p).fits
  have ends : Then (PatternAccepts inPath p) (List.isEmpty · = true) t.utf8 ↔
      PatternAccepts inPath p t.utf8 := by
    simp [Then]
  rw [← ends, ← marked]
  unfold Pattern.isMatch
  split
  · simp
  · next other => exact (or_iff_right other).symm

end ConfigTree.Glob
