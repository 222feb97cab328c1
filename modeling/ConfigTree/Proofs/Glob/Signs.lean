import ConfigTree.Proofs.Glob.Reading

/-!
# Brackets in patterns

Brackets, braces and backslashes have a meaning of their own, and a pattern with one of them asks
for fewer of them than it has. So there is a text that it matches with too few of them: one of those
that it matches, with other characters for the brackets that it does not ask for.
-/

namespace ConfigTree.Glob

/-- The characters that classes, alternatives and escapes are made of. -/
def signs : List Char := [']', '[', '\x7b', '\x7d', '\\']

/-- Their bytes. -/
def signBytes : List UInt8 := [0x5D, 0x5B, 0x7B, 0x7D, 0x5C]

def isSign (x : Char) : Bool := signs.contains x

def isSignByte (b : UInt8) : Bool := signBytes.contains b

mutual

/-- The number of signs that a token may ask for. -/
def Token.signs : Token → Nat
  | .literal c => if isSign c then 1 else 0
  | .charClass _ _ => 1
  | .alternatives patterns => anySigns patterns
  | _ => 0

def anySigns : List (List Token) → Nat
  | [] => 0
  | p :: ps => patternSigns p + anySigns ps

def patternSigns : List Token → Nat
  | [] => 0
  | t :: ts => t.signs + patternSigns ts

end

theorem patternSigns_append (p q : List Token) :
    patternSigns (p ++ q) = patternSigns p + patternSigns q := by
  induction p with
  | nil => exact (Nat.zero_add _).symm
  | cons t p ih => rw [List.cons_append, patternSigns, patternSigns, ih, Nat.add_assoc]

theorem patternSigns_reverse (p : List Token) : patternSigns p.reverse = patternSigns p := by
  induction p with
  | nil => rfl
  | cons t p ih =>
    rw [List.reverse_cons, patternSigns_append, ih, patternSigns, patternSigns, patternSigns]
    omega

theorem anySigns_append (ps qs : List (List Token)) :
    anySigns (ps ++ qs) = anySigns ps + anySigns qs := by
  induction ps with
  | nil => exact (Nat.zero_add _).symm
  | cons p ps ih => rw [List.cons_append, anySigns, anySigns, ih, Nat.add_assoc]

theorem anySigns_reverse (ps : List (List Token)) : anySigns ps.reverse = anySigns ps := by
  induction ps with
  | nil => rfl
  | cons p ps ih =>
    rw [List.reverse_cons, anySigns_append, ih, anySigns, anySigns, anySigns]
    omega

def Level.signs (level : Level) : Nat := anySigns level.finished + patternSigns level.tokens

def outerSigns : List Level → Nat
  | [] => 0
  | level :: outer => level.signs + outerSigns outer

def Levels.signs (ls : Levels) : Nat := ls.inner.signs + outerSigns ls.outer

namespace Levels

variable {ls ls' : Levels}

theorem signs_push (ls : Levels) (t : Token) : (ls.push t).signs = t.signs + ls.signs := by
  simp only [signs, push, withTokens, Level.signs, patternSigns]
  omega

theorem signs_openBrace (ls : Levels) : ls.openBrace.signs = ls.signs := by
  simp [signs, openBrace, outerSigns, Level.signs, anySigns, patternSigns]

theorem signs_nextAlternative (ls : Levels) : ls.nextAlternative.signs = ls.signs := by
  simp only [signs, nextAlternative, Level.signs, anySigns, patternSigns, patternSigns_reverse]
  omega

theorem signs_closeBrace (closed : ls.closeBrace = some ls') : ls'.signs = ls.signs := by
  obtain ⟨inner, outer⟩ := ls
  cases outer with
  | nil => cases closed
  | cons level outer =>
    obtain rfl := Option.some.inj closed
    rw [signs_push, Token.signs, anySigns_reverse, anySigns, patternSigns_reverse]
    simp only [signs, outerSigns, Level.signs]
    omega

theorem signs_finish {p : Pattern} (finished : ls.finish = some p) : patternSigns p ≤ ls.signs := by
  obtain ⟨inner, outer⟩ := ls
  cases outer with
  | nil =>
    obtain rfl := Option.some.inj finished
    rw [patternSigns_reverse]
    simp only [signs, Level.signs]
    omega
  | cons level outer => cases finished

end Levels

theorem exists_of_readClass {st : ClassState} {t rest : Text} {ranges : List (Char × Char)}
    (read : readClass st t = some (ranges, rest)) : ∃ inside, t = inside ++ ']' :: rest := by
  induction t generalizing st with
  | nil => cases read
  | cons c cs ih =>
    rw [readClass] at read
    split at read
    · next closes =>
      obtain rfl : cs = rest := (Prod.mk.inj (Option.some.inj read)).2
      exact ⟨[], by rw [closes.1]; rfl⟩
    · cases added : st.add c with
      | none => simp [added] at read
      | some st' =>
        rw [added] at read
        obtain ⟨inside, rfl⟩ := ih read
        exact ⟨c :: inside, rfl⟩

theorem patternSigns_doubleStar (inBraces : Bool) (before : Option Char) (tokens : List Token)
    (rest : Text) :
    patternSigns (doubleStar inBraces before tokens rest).1 ≤ patternSigns tokens := by
  cases tokens with
  | nil => grind [doubleStar, patternSigns, Token.signs]
  | cons last others => cases last <;> grind [doubleStar, patternSigns, Token.signs]

theorem head_of_doubleStar {inBraces : Bool} {before : Option Char} {tokens : List Token}
    {rest : Text} (takes : (doubleStar inBraces before tokens rest).2 = true) :
    rest.head? = some '/' := by
  unfold doubleStar at takes
  grind

/-- A text is read with no more signs asked for than it has, and with fewer if one of them has a
meaning of its own. -/
def ReadsWithin (available : Nat) (t : Text) (p : Pattern) : Prop :=
  patternSigns p ≤ available + t.countP isSign ∧
    (patternSigns p = available + t.countP isSign → ∀ x ∈ t, x ∉ specials)

namespace ReadsWithin

variable {available available' : Nat} {t : Text} {p : Pattern}

/-- One step of reading: `taken` goes, and the levels change. -/
theorem step (taken : Text) (behind : ReadsWithin available' t p)
    (enough : available' ≤ available + taken.countP isSign)
    (tight : available' = available + taken.countP isSign → ∀ x ∈ taken, x ∉ specials) :
    ReadsWithin available (taken ++ t) p := by
  obtain ⟨most, plain⟩ := behind
  rw [ReadsWithin, List.countP_append]
  refine ⟨by omega, fun full => ?_⟩
  rw [List.forall_mem_append]
  exact ⟨tight (by omega), plain (by omega)⟩

/-- A step over a sign with a meaning of its own. -/
theorem special (taken : Text) (behind : ReadsWithin available' t p)
    (fewer : available' < available + taken.countP isSign) :
    ReadsWithin available (taken ++ t) p :=
  behind.step taken (by omega) (fun full => by omega)

/-- An escaped character goes, and is asked for. -/
theorem escape {ls : Levels} (c : Char) (behind : ReadsWithin (ls.push (.literal c)).signs t p) :
    ReadsWithin ls.signs ('\\' :: c :: t) p := by
  refine behind.special ['\\', c] ?_
  have escape : isSign '\\' = true := by decide
  simp only [Levels.signs_push, Token.signs, List.countP_cons, escape, List.countP_nil, if_true]
  omega

/-- A class goes. It has two brackets, and asks for one sign. -/
theorem charClass {ls : Levels} {inside : Text} {negated : Bool} {ranges : List (Char × Char)}
    (behind : ReadsWithin (ls.push (.charClass negated ranges)).signs t p) :
    ReadsWithin ls.signs ('[' :: (inside ++ ']' :: t)) p := by
  have whole : '[' :: (inside ++ ']' :: t) = '[' :: (inside ++ [']']) ++ t := by simp
  rw [whole]
  refine behind.special _ ?_
  have opens : isSign '[' = true := by decide
  have closes : isSign ']' = true := by decide
  simp only [Levels.signs_push, Token.signs, List.countP_cons, List.countP_append, opens, closes,
    List.countP_nil, if_true]
  omega

end ReadsWithin

theorem signs_withTokens (ls : Levels) {tokens : List Token}
    (fewer : patternSigns tokens ≤ patternSigns ls.inner.tokens) :
    (ls.withTokens tokens).signs ≤ ls.signs := by
  simp only [Levels.signs, Levels.withTokens, Level.signs]
  omega

theorem readsWithin_of_readPattern {steps : Nat} {before : Option Char} {ls : Levels} {t : Text}
    {p : Pattern} (read : readPattern steps before ls t = some p) : ReadsWithin ls.signs t p := by
  fun_induction readPattern steps before ls t with
  | case2 steps before ls => exact ⟨Levels.signs_finish read, by simp⟩
  | case3 steps before ls rest tokens found ih =>
    have fewer := patternSigns_doubleStar ls.inBraces before ls.inner.tokens rest
    have slash : rest.head? = some '/' := head_of_doubleStar (congrArg Prod.snd found)
    obtain ⟨rest, rfl⟩ := List.head?_eq_some_iff.mp slash
    rw [found] at fewer
    exact (ih read).step ['*', '*', '/']
      (Nat.le_add_right_of_le (signs_withTokens ls fewer)) (fun _ => by simp [specials])
  | case4 steps before ls rest tokens takes found notTakes ih =>
    have fewer := patternSigns_doubleStar ls.inBraces before ls.inner.tokens rest
    rw [found] at fewer
    exact (ih read).step ['*', '*']
      (Nat.le_add_right_of_le (signs_withTokens ls fewer)) (fun _ => by simp [specials])
  | case6 steps before ls c rest ih => exact (ih read).escape c
  | case8 steps before ls rest negated inner cut ranges left found ih =>
    obtain ⟨sign, rfl⟩ : ∃ sign : Text, rest = sign ++ inner := by
      split at cut
      all_goals
        obtain ⟨-, rfl⟩ := Prod.mk.inj cut
      · exact ⟨['!'], rfl⟩
      · exact ⟨['^'], rfl⟩
      · exact ⟨[], rfl⟩
    obtain ⟨inside, rfl⟩ := exists_of_readClass found
    rw [← List.append_assoc]
    exact (ih read).charClass
  | case9 steps before ls rest _ _ _ ih =>
    refine (ih read).step ['*'] ?_ (fun _ => by simp [specials])
    simp [Levels.signs_push, Token.signs]
  | case10 steps before ls rest _ _ _ _ ih =>
    refine (ih read).step ['?'] ?_ (fun _ => by simp [specials])
    simp [Levels.signs_push, Token.signs]
  | case11 steps before ls rest _ _ _ _ _ ih =>
    refine (ih read).special ['\x7b'] ?_
    rw [Levels.signs_openBrace]
    exact Nat.lt_succ_self _
  | case13 steps before ls rest ls' closed _ _ _ _ _ _ ih =>
    refine (ih read).special ['\x7d'] ?_
    rw [Levels.signs_closeBrace closed]
    exact Nat.lt_succ_self _
  | case14 steps before ls c rest _ _ _ _ _ _ _ comma ih =>
    refine (ih read).step [c] ?_ (fun _ => ?_)
    · rw [Levels.signs_nextAlternative]
      exact Nat.le_add_right _ _
    · simp [comma.1, specials]
  | case15 steps before ls c rest notStars notEscape notClass _ _ notOpen notClose _ ih =>
    refine (ih read).step [c] ?_ (fun _ => ?_)
    · simp [Levels.signs_push, Token.signs, List.countP_cons, Nat.add_comm]
    · simpa [specials, notOpen, notClose] using ⟨notClass, notEscape⟩
  | _ => cases read

/-! ## Letters for signs -/

/-- Letters may stand for signs among the bytes. -/
inductive Fades : List UInt8 → List UInt8 → Prop where
  | nil : Fades [] []
  | keep (b : UInt8) {s s' : List UInt8} (rest : Fades s s') : Fades (b :: s) (b :: s')
  | fade {b : UInt8} {s s' : List UInt8} (sign : isSignByte b = true) (rest : Fades s s') :
    Fades (b :: s) (0x78 :: s')

namespace Fades

variable {s s' u u' v : List UInt8}

theorem refl (s : List UInt8) : Fades s s := by
  induction s with
  | nil => exact .nil
  | cons b s ih => exact .keep b ih

theorem append {v' : List UInt8} (first : Fades u u') (second : Fades v v') :
    Fades (u ++ v) (u' ++ v') := by
  induction first with
  | nil => exact second
  | keep b rest ih => exact .keep b ih
  | fade sign rest ih => exact .fade sign ih

theorem of_append (whole : Fades (u ++ v) s) :
    ∃ u' v', s = u' ++ v' ∧ Fades u u' ∧ Fades v v' := by
  induction u generalizing s with
  | nil => exact ⟨[], s, rfl, .nil, whole⟩
  | cons b u ih =>
    cases whole with
    | keep _ rest =>
      obtain ⟨u', v', rfl, first, second⟩ := ih rest
      exact ⟨b :: u', v', rfl, .keep b first, second⟩
    | fade sign rest =>
      obtain ⟨u', v', rfl, first, second⟩ := ih rest
      exact ⟨0x78 :: u', v', rfl, .fade sign first, second⟩

/-- Bytes without signs stay as they are. -/
theorem eq_of_noSigns (fades : Fades s s') (none : ∀ b ∈ s, isSignByte b = false) : s' = s := by
  induction fades with
  | nil => rfl
  | keep b rest ih =>
    rw [List.forall_mem_cons] at none
    rw [ih none.2]
  | fade sign rest ih =>
    rw [List.forall_mem_cons, sign] at none
    cases none.1

/-- All signs may go. -/
theorem exists_noSigns (s : List UInt8) : ∃ s', Fades s s' ∧ s'.countP isSignByte = 0 := by
  induction s with
  | nil => exact ⟨[], .nil, rfl⟩
  | cons b s ih =>
    obtain ⟨s', fades, none⟩ := ih
    by_cases sign : isSignByte b = true
    · exact ⟨0x78 :: s', .fade sign fades, by rw [List.countP_cons, none]; rfl⟩
    · exact ⟨b :: s', .keep b fades, by rw [List.countP_cons, none, if_neg sign]⟩

theorem exists_noSigns_slash (s : List UInt8) :
    ∃ s', Fades (s ++ [slash]) (s' ++ [slash]) ∧ (s' ++ [slash]).countP isSignByte = 0 := by
  obtain ⟨s', fades, none⟩ := exists_noSigns s
  exact ⟨s', fades.append (.refl _), by rw [List.countP_append, none]; rfl⟩

end Fades

theorem utf8EncodeChar_signs : signs.map String.utf8EncodeChar = signBytes.map ([·]) := by
  decide

theorem isSignByte_of_isSign {x : Char} (sign : isSign x = true) :
    ∃ b, String.utf8EncodeChar x = [b] ∧ isSignByte b = true := by
  have isIn := List.mem_map_of_mem (f := String.utf8EncodeChar) (List.contains_iff_mem.mp sign)
  rw [utf8EncodeChar_signs] at isIn
  obtain ⟨b, own, bytes⟩ := List.mem_map.mp isIn
  exact ⟨b, bytes.symm, List.contains_iff_mem.mpr own⟩

theorem isSignByte_eq_false {x : Char} (other : isSign x = false) {b : UInt8}
    (isIn : b ∈ String.utf8EncodeChar x) : isSignByte b = false := by
  refine Bool.eq_false_iff.mpr fun sign => ?_
  have among := List.mem_map_of_mem (f := ([·])) (List.contains_iff_mem.mp sign)
  rw [← utf8EncodeChar_signs] at among
  obtain ⟨y, isSign, single⟩ := List.mem_map.mp among
  rw [Text.eq_of_mem_utf8EncodeChar single isIn] at other
  exact absurd (List.contains_iff_mem.mpr isSign) (Bool.eq_false_iff.mp other)

theorem countP_utf8EncodeChar (x : Char) :
    (String.utf8EncodeChar x).countP isSignByte = if isSign x then 1 else 0 := by
  by_cases sign : isSign x = true
  · obtain ⟨b, bytes, own⟩ := isSignByte_of_isSign sign
    simp [bytes, own, sign]
  · rw [if_neg sign, List.countP_eq_zero]
    intro b isIn
    simp [isSignByte_eq_false (Bool.eq_false_iff.mpr sign) isIn]

/-- Letters for signs in the bytes of a text are letters for signs in the text. -/
theorem exists_text_of_fades {c : Text} {s : List UInt8} (fades : Fades c.utf8 s) :
    ∃ c' : Text, c'.utf8 = s ∧ c'.countP isSign = s.countP isSignByte := by
  induction c generalizing s with
  | nil =>
    cases fades
    exact ⟨[], rfl, rfl⟩
  | cons x c ih =>
    rw [Text.utf8_cons] at fades
    obtain ⟨u, v, rfl, first, second⟩ := fades.of_append
    obtain ⟨c', rfl, signs⟩ := ih second
    obtain ⟨y, rfl⟩ : ∃ y, String.utf8EncodeChar y = u := by
      by_cases sign : isSign x = true
      · obtain ⟨b, bytes, -⟩ := isSignByte_of_isSign sign
        rw [bytes] at first
        cases first with
        | keep _ rest =>
          cases rest
          exact ⟨x, bytes⟩
        | fade _ rest =>
          cases rest
          exact ⟨'x', by decide⟩
      · refine ⟨x, (first.eq_of_noSigns fun b isIn => ?_).symm⟩
        exact isSignByte_eq_false (Bool.eq_false_iff.mpr sign) isIn
    refine ⟨y :: c', Text.utf8_cons y c', ?_⟩
    rw [List.countP_cons, List.countP_append, countP_utf8EncodeChar, signs, Nat.add_comm]

mutual

/-- What a token stands for it also stands for with letters for all but the signs it asks for. -/
theorem Token.exists_fades : (t : Token) → {s : List UInt8} → t.Accepts false s →
    ∃ s', Fades s s' ∧ t.Accepts false s' ∧ s'.countP isSignByte ≤ t.signs
  | .literal c, s, accepts => by
    refine ⟨s, .refl s, accepts, ?_⟩
    rw [Token.Accepts] at accepts
    rw [accepts, Token.signs]
    exact Nat.le_of_eq (countP_utf8EncodeChar c)
  | .any, s, accepts => by
    rw [Token.Accepts] at accepts
    obtain ⟨b, rfl, -⟩ := accepts
    obtain ⟨s', fades, none⟩ := Fades.exists_noSigns [b]
    refine ⟨s', fades, ?_, Nat.le_of_eq none⟩
    cases fades with
    | keep _ rest | fade _ rest =>
      cases rest
      exact ⟨_, rfl, by simp⟩
  | .star, s, accepts => by
    obtain ⟨s', fades, none⟩ := Fades.exists_noSigns s
    exact ⟨s', fades, by simp [Token.Accepts], Nat.le_of_eq none⟩
  | .leadingDirectories, s, accepts => by
    rw [Token.Accepts] at accepts
    rcases accepts with rfl | ⟨u, rfl⟩
    · exact ⟨[], .nil, .inl rfl, Nat.zero_le _⟩
    · obtain ⟨u', fades, none⟩ := Fades.exists_noSigns_slash u
      exact ⟨u' ++ [slash], fades, .inr ⟨u', rfl⟩, Nat.le_of_eq none⟩
  | .innerDirectories, s, accepts => by
    rw [Token.Accepts] at accepts
    rcases accepts with rfl | ⟨u, rfl⟩
    · exact ⟨[slash], .refl _, .inl rfl, Nat.zero_le _⟩
    · obtain ⟨u', fades, none⟩ := Fades.exists_noSigns_slash u
      exact ⟨slash :: (u' ++ [slash]), .keep slash fades, .inr ⟨u', rfl⟩, Nat.le_of_eq none⟩
  | .inside, s, accepts => by
    rw [Token.Accepts] at accepts
    obtain ⟨u, rfl⟩ := accepts
    obtain ⟨u', fades, none⟩ := Fades.exists_noSigns u
    exact ⟨slash :: u', .keep slash fades, ⟨u', rfl⟩, Nat.le_of_eq none⟩
  | .charClass negated ranges, s, accepts => by
    refine ⟨s, .refl s, accepts, ?_⟩
    rw [Token.Accepts] at accepts
    obtain ⟨b, rfl, -⟩ := accepts
    exact List.countP_le_length
  | .alternatives patterns, s, accepts => by
    rw [Token.Accepts] at accepts
    simp only [Token.Accepts, Token.signs]
    split at accepts
    · next void =>
      refine ⟨[], accepts ▸ .nil, ?_, Nat.zero_le _⟩
      simp [void]
    · next void =>
      obtain ⟨s', fades, again, signs⟩ := exists_fades_any patterns accepts
      exact ⟨s', fades, by rw [if_neg void]; exact again, signs⟩

theorem exists_fades_any : (ps : List (List Token)) → {s : List UInt8} → AnyAccepts false ps s →
    ∃ s', Fades s s' ∧ AnyAccepts false ps s' ∧ s'.countP isSignByte ≤ anySigns ps
  | [], s, accepts => by
    rw [AnyAccepts] at accepts
    exact accepts.elim
  | p :: ps, s, accepts => by
    rw [AnyAccepts] at accepts
    rcases accepts with ⟨stands, accepts⟩ | accepts
    · obtain ⟨s', fades, again, signs⟩ := exists_fades_pattern p accepts
      refine ⟨s', fades, ?_, Nat.le_add_right_of_le signs⟩
      rw [AnyAccepts]
      exact .inl ⟨stands, again⟩
    · obtain ⟨s', fades, again, signs⟩ := exists_fades_any ps accepts
      refine ⟨s', fades, ?_, Nat.le_add_left_of_le signs⟩
      rw [AnyAccepts]
      exact .inr again

theorem exists_fades_pattern : (p : List Token) → {s : List UInt8} → PatternAccepts false p s →
    ∃ s', Fades s s' ∧ PatternAccepts false p s' ∧ s'.countP isSignByte ≤ patternSigns p
  | [], s, accepts => by
    rw [PatternAccepts] at accepts
    exact ⟨[], accepts ▸ .nil, rfl, Nat.zero_le _⟩
  | t :: ts, s, accepts => by
    rw [PatternAccepts] at accepts
    obtain ⟨u, v, rfl, begins, follows⟩ := accepts
    obtain ⟨u', fades, begins, signs⟩ := t.exists_fades begins
    obtain ⟨v', fades', follows, signs'⟩ := exists_fades_pattern ts follows
    refine ⟨u' ++ v', fades.append fades', ⟨u', v', rfl, begins, follows⟩, ?_⟩
    rw [List.countP_append, patternSigns]
    omega

end

/-- A pattern that matches a text matches one with no more signs than it asks for. -/
theorem exists_isMatch_of_isMatch {p : Pattern} {c : Text} (found : p.isMatch false c = true) :
    ∃ c' : Text, p.isMatch false c' = true ∧ c'.countP isSign ≤ patternSigns p := by
  rcases (p.isMatch_iff false c).mp found with rfl | accepts
  · exact ⟨[], (Pattern.isMatch_iff _ _ _).mpr (.inl rfl), Nat.le_refl 0⟩
  · obtain ⟨s, fades, again, most⟩ := exists_fades_pattern p accepts
    obtain ⟨c', rfl, signs⟩ := exists_text_of_fades fades
    exact ⟨c', (p.isMatch_iff false c').mpr (.inr again), signs ▸ most⟩

end ConfigTree.Glob
