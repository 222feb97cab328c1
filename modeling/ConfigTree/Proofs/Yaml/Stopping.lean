import ConfigTree.Proofs.Text.Cutting

/-!
# Where scanners stop

What a scanner takes depends on the text behind it through very little: the next character, whether
the blanks in front are followed by anything to go on with, and for literal and folded scalars the
next line with content. A scanner that has stopped once stops at the same place in front of any
other text that shows it the same.
-/

namespace ConfigTree.Yaml

theorem isBlank_of_isInlineBlank {c : Char} (h : isInlineBlank c = true) : isBlank c = true := by
  unfold isInlineBlank at h
  unfold isBlank
  grind

theorem isWhiteSpace_of_isBlank {c : Char} (h : isBlank c = true) : isWhiteSpace c = true := by
  simp only [isBlank, Bool.or_eq_true, beq_iff_eq] at h
  rcases h with ((rfl | rfl) | rfl) | rfl <;> decide

theorem blankOrEnd_of_head {s t : Text} (h : s.head? = t.head?) : blankOrEnd s = blankOrEnd t := by
  cases s <;> cases t <;> simp_all [blankOrEnd]

theorem colonEnds_of_head {inFlow : Bool} {s t : Text} (h : s.head? = t.head?) :
    colonEnds inFlow s = colonEnds inFlow t := by
  cases s <;> cases t <;> simp_all [colonEnds]

theorem colonEnds_of_blankOrEnd {inFlow : Bool} {t : Text} (h : blankOrEnd t = true) :
    colonEnds inFlow t = true := by
  cases t <;> simp_all [blankOrEnd, colonEnds]

theorem trivia_cons_eq_nil {mayOpen : Bool} {c : Char} {cs : Text} :
    trivia mayOpen false (c :: cs) = ([], c :: cs) ↔
      isBlank c = false ∧ ¬ (c = '#' ∧ mayOpen = true) := by
  rw [trivia]
  grind

/-- Whether trivia start depends on the first character alone. -/
theorem trivia_of_head {mayOpen : Bool} {s t : Text} (h : s.head? = t.head?)
    (starts : trivia mayOpen false s = ([], s)) : trivia mayOpen false t = ([], t) := by
  cases s with
  | nil => rw [List.head?_eq_none_iff.mp (h.symm.trans List.head?_nil)]; rfl
  | cons c s =>
    obtain ⟨t, rfl⟩ := List.head?_eq_some_iff.mp (h.symm.trans List.head?_cons)
    exact trivia_cons_eq_nil.mpr (trivia_cons_eq_nil.mp starts)

/-- One step of `trivia`: it goes on, whatever follows, or stops, whatever follows. It goes on
outside of a comment after blanks only. -/
theorem trivia_cons (mayOpen inComment : Bool) (c : Char) :
    (∃ goesOn, (goesOn = false → isBlank c = true) ∧ ∀ t, trivia mayOpen inComment (c :: t) =
      (c :: (trivia (isBlank c) goesOn t).1, (trivia (isBlank c) goesOn t).2)) ∨
    inComment = false ∧ isBlank c = false ∧ ¬ (c = '#' ∧ mayOpen = true) := by
  cases inComment with
  | true =>
    refine .inl ⟨decide (c ≠ '\n'), fun ends => ?_, fun t => by simp [trivia]⟩
    have : c = '\n' := by simpa using ends
    rw [this]
    rfl
  | false =>
    by_cases blank : isBlank c = true
    · exact .inl ⟨false, fun _ => blank, fun t => by simp [trivia, blank]⟩
    · by_cases opens : c = '#' ∧ mayOpen = true
      · refine .inl ⟨true, fun ends => Bool.noConfusion ends, fun t => ?_⟩
        obtain ⟨rfl, rfl⟩ := opens
        simp [trivia, isBlank]
      · exact .inr ⟨rfl, eq_false_of_ne_true blank, opens⟩

theorem trivia_cons_step {mayOpen inComment : Bool} {c : Char} {lead rest : Text}
    (h : trivia mayOpen inComment (c :: (lead ++ rest)) = (c :: lead, rest)) :
    ∃ goesOn, (goesOn = false → isBlank c = true) ∧
      (∀ t, trivia mayOpen inComment (c :: t) =
        (c :: (trivia (isBlank c) goesOn t).1, (trivia (isBlank c) goesOn t).2)) ∧
      trivia (isBlank c) goesOn (lead ++ rest) = (lead, rest) := by
  rcases trivia_cons mayOpen inComment c with ⟨goesOn, blank, step⟩ | ⟨rfl, stops⟩
  · refine ⟨goesOn, blank, step, ?_⟩
    rw [step] at h
    obtain ⟨taken, left⟩ := Prod.mk.inj h
    exact Prod.ext (List.cons.inj taken).2 left
  · rw [trivia_cons_eq_nil.mpr stops] at h
    exact absurd (congrArg Prod.fst h) (List.cons_ne_nil _ _).symm

/-- No trivia are taken in front of a text inside a comment only if the text is empty. -/
theorem eq_false_of_trivia_nil {mayOpen inComment : Bool} {t : Text} (ne : t ≠ [])
    (h : trivia mayOpen inComment t = ([], t)) : inComment = false := by
  obtain ⟨c, t, rfl⟩ := List.exists_cons_of_ne_nil ne
  apply eq_false_of_ne_true
  rintro rfl
  simp [trivia] at h

/-- The trivia in front do not depend on what follows their end, as long as it starts none. -/
theorem trivia_append_of {mayOpen inComment : Bool} {lead rest rest' : Text}
    (h : trivia mayOpen inComment (lead ++ rest) = (lead, rest)) (ne : rest ≠ [])
    (starts : trivia (openAfter mayOpen lead) false rest' = ([], rest')) :
    trivia mayOpen inComment (lead ++ rest') = (lead, rest') := by
  induction lead generalizing mayOpen inComment with
  | nil =>
    obtain rfl := eq_false_of_trivia_nil ne h
    exact starts
  | cons c lead ih =>
    obtain ⟨goesOn, -, step, inner⟩ := trivia_cons_step h
    rw [List.cons_append, step, ih inner starts]

/-- After trivia a comment may open, unless they are the last of the text. -/
theorem openAfter_of_trivia {mayOpen inComment : Bool} {lead rest : Text}
    (h : trivia mayOpen inComment (lead ++ rest) = (lead, rest)) (ne : rest ≠ [])
    (nonempty : lead ≠ []) : openAfter mayOpen lead = true := by
  induction lead generalizing mayOpen inComment with
  | nil => contradiction
  | cons c lead ih =>
    obtain ⟨goesOn, blank, -, inner⟩ := trivia_cons_step h
    cases lead with
    | nil => exact blank (eq_false_of_trivia_nil ne inner)
    | cons d lead => exact ih inner (List.cons_ne_nil _ _)

/-- Whether a plain scalar that ends in front of `t` ends there: there is nothing but blanks for it
to go on with. -/
def plainStops (inFlow : Bool) (t : Text) : Prop :=
  ∀ c ∈ plainRun inFlow false t, isInlineBlank c = true

/-- The first character that is not an inline blank, with what stands before and after it. -/
theorem exists_inlineBlanks {s : Text} (h : ∃ c ∈ s, isInlineBlank c = false) :
    ∃ blanks d after, s = blanks ++ d :: after ∧ (∀ c ∈ blanks, isInlineBlank c = true) ∧
      isInlineBlank d = false := by
  induction s with
  | nil =>
    obtain ⟨c, inside, -⟩ := h
    contradiction
  | cons c s ih =>
    cases blank : isInlineBlank c with
    | false => exact ⟨[], c, s, rfl, fun _ inside => absurd inside List.not_mem_nil, blank⟩
    | true =>
      obtain ⟨d, inside, solid⟩ := h
      rcases List.mem_cons.mp inside with rfl | inside
      · rw [blank] at solid
        contradiction
      · obtain ⟨blanks, e, after, rfl, all, solid⟩ := ih ⟨d, inside, solid⟩
        exact ⟨c :: blanks, e, after, rfl, by simpa [blank] using all, solid⟩

/-- Inline blanks are no reason to stop. -/
theorem plainRun_inlineBlanks {inFlow afterBlank : Bool} {blanks : Text} (t : Text)
    (h : ∀ c ∈ blanks, isInlineBlank c = true) :
    plainRun inFlow afterBlank (blanks ++ t) =
      blanks ++ plainRun inFlow (openAfter afterBlank blanks) t := by
  induction blanks generalizing afterBlank with
  | nil => rfl
  | cons c blanks ih =>
    have inline := h c (List.mem_cons_self ..)
    rw [List.cons_append, plainRun, openAfter, ih fun d inside =>
      h d (List.mem_cons_of_mem _ inside)]
    simp only [isInlineBlank, Bool.or_eq_true, beq_iff_eq] at inline
    rcases inline with rfl | rfl <;> simp [isFlowIndicator]

theorem plainRun_cons_eq_nil {inFlow afterBlank : Bool} {c : Char} {t : Text} :
    plainRun inFlow afterBlank (c :: t) = [] ↔
      c = '\n' ∨ c = '\r' ∨ c = ':' ∧ colonEnds inFlow t = true ∨ c = '#' ∧ afterBlank = true ∨
        inFlow = true ∧ isFlowIndicator c = true := by
  rw [plainRun]
  grind

theorem plainStops_inlineBlanks {inFlow : Bool} {blanks : Text} {d : Char} {t : Text}
    (all : ∀ c ∈ blanks, isInlineBlank c = true) (solid : isInlineBlank d = false) :
    plainStops inFlow (blanks ++ d :: t) ↔
      plainRun inFlow (openAfter false blanks) (d :: t) = [] := by
  unfold plainStops
  rw [plainRun_inlineBlanks _ all]
  constructor
  · intro stops
    rw [plainRun_cons_eq_nil]
    rw [plainRun] at stops
    grind
  · intro nothing c inside
    rw [nothing, List.append_nil] at inside
    exact all c inside

/-- Inside a flow collection a scalar ends at the next separator or bracket at the latest. -/
theorem plainStops_of_flowIndicator {common : Text}
    (h : ∃ c ∈ common, isFlowIndicator c = true) (rest rest' : Text)
    (stops : plainStops true (common ++ rest)) : plainStops true (common ++ rest') := by
  obtain ⟨c, inside, indicator⟩ := h
  have notBlank : isInlineBlank c = false := by
    unfold isFlowIndicator at indicator
    unfold isInlineBlank
    grind
  obtain ⟨blanks, d, after, rfl, all, solid⟩ := exists_inlineBlanks ⟨c, inside, notBlank⟩
  simp only [List.append_assoc, List.cons_append] at stops ⊢
  rw [plainStops_inlineBlanks all solid, plainRun_cons_eq_nil] at stops ⊢
  cases after with
  | cons e after => exact stops
  | nil =>
    rcases List.mem_append.mp inside with inside | inside
    · rw [all c inside] at notBlank
      contradiction
    · obtain rfl := List.mem_singleton.mp inside
      exact .inr (.inr (.inr (.inr ⟨rfl, indicator⟩)))

/-- A run that takes all of `s` takes it in front of any text that does not turn a colon at its end
into an indicator. -/
theorem plainRun_append {inFlow afterBlank : Bool} {s rest rest' run : Text}
    (h : plainRun inFlow afterBlank (s ++ rest) = s ++ run)
    (colon : colonEnds inFlow rest' = true → colonEnds inFlow rest = true) :
    plainRun inFlow afterBlank (s ++ rest') =
      s ++ plainRun inFlow (openAfter afterBlank s) rest' := by
  induction s generalizing afterBlank with
  | nil => rfl
  | cons c s ih =>
    have goesOn : plainRun inFlow afterBlank (c :: (s ++ rest)) ≠ [] := by
      intro nothing
      rw [List.cons_append, nothing] at h
      contradiction
    have goesOn' : plainRun inFlow afterBlank (c :: (s ++ rest')) ≠ [] := by
      rw [Ne, plainRun_cons_eq_nil] at goesOn ⊢
      cases s with
      | nil => grind
      | cons d s => exact goesOn
    rw [Ne, plainRun_cons_eq_nil] at goesOn goesOn'
    rw [List.cons_append, plainRun] at h ⊢
    rw [if_neg (by grind), if_neg (by grind), if_neg (by grind), if_neg (by grind)] at h ⊢
    rw [openAfter, ih (List.cons.inj h).2]
    rfl

theorem notMem_plainRun (inFlow afterBlank : Bool) (t : Text) :
    ∀ c ∈ plainRun inFlow afterBlank t, c ≠ '\n' ∧ c ≠ '\r' := by
  fun_induction plainRun inFlow afterBlank t <;> grind

theorem openAfter_append_singleton (before : Bool) (s : Text) (c : Char) :
    openAfter before (s ++ [c]) = isBlank c := by
  rw [openAfter_append]
  rfl

/-- A plain scalar as `scanPlain` cuts it: it has no line end in it and no blank at its end, and the
run goes on with blanks only. -/
theorem scanPlain_eq {inFlow : Bool} {text rest : Text}
    (h : scanPlain inFlow (text ++ rest) = (text, rest)) (nonempty : text ≠ []) :
    plainRun inFlow false (text ++ rest) = text ++ plainRun inFlow false rest ∧
      plainStops inFlow rest ∧ Text.trimEndWhile isInlineBlank text = text ∧
      (∀ before, openAfter before text = false) ∧ '\n' ∉ text := by
  have trimmed := (Prod.mk.inj h).1
  obtain ⟨blanks, whole, all⟩ := Text.exists_append_of_trimEndWhile isInlineBlank
    (plainRun inFlow false (text ++ rest))
  rw [trimmed] at whole
  have stable := Text.trimEndWhile_trimEndWhile isInlineBlank (plainRun inFlow false (text ++ rest))
  rw [trimmed] at stable
  have chars : ∀ c ∈ text, c ≠ '\n' ∧ c ≠ '\r' := fun c inside =>
    notMem_plainRun inFlow false (text ++ rest) c (whole ▸ List.mem_append_left _ inside)
  have closed : ∀ before, openAfter before text = false := by
    intro before
    obtain ⟨s, c, rfl⟩ : ∃ s c, text = s ++ [c] :=
      ⟨_, _, (List.dropLast_concat_getLast nonempty).symm⟩
    have kept := Text.getLast_of_trimEndWhile stable
    have noLineEnd := chars c (by simp)
    rw [openAfter_append_singleton]
    unfold isInlineBlank at kept
    unfold isBlank
    grind
  have run := plainRun_append whole id
  rw [closed] at run
  refine ⟨run, ?_, stable, closed, fun inside => (chars _ inside).1 rfl⟩
  intro c inside
  rw [run, List.append_cancel_left_eq] at whole
  exact all c (whole ▸ inside)

/-- A plain scalar ends at the same place in front of another text where it stops. -/
theorem scanPlain_append_of {inFlow : Bool} {text rest rest' : Text}
    (h : scanPlain inFlow (text ++ rest) = (text, rest)) (nonempty : text ≠ [])
    (colon : colonEnds inFlow rest' = true → colonEnds inFlow rest = true)
    (stops : plainStops inFlow rest') : scanPlain inFlow (text ++ rest') = (text, rest') := by
  obtain ⟨run, -, stable, closed, -⟩ := scanPlain_eq h nonempty
  have run' := plainRun_append run colon
  rw [closed] at run'
  have trimmed : Text.trimEndWhile isInlineBlank (plainRun inFlow false (text ++ rest')) =
      text := by
    rw [run', Text.trimEndWhile_append text stops, stable]
  unfold scanPlain
  rw [trimmed]
  exact congrArg (Prod.mk text) List.drop_left

theorem scanSingleQuoted_append_of {t text rest rest' : Text}
    (h : scanSingleQuoted t = some (text, rest)) (head : rest'.head? = rest.head?) :
    scanSingleQuoted (text ++ '\'' :: rest') = some (text, rest') := by
  fun_induction scanSingleQuoted t generalizing text rest with
  | case1 => contradiction
  | case2 cs ih =>
    obtain ⟨⟨inner, after⟩, found, same⟩ := Option.map_eq_some_iff.mp h
    cases same
    simp [scanSingleQuoted, ih found head]
  | case3 cs notDoubled =>
    cases h
    rw [List.nil_append, scanSingleQuoted, if_pos rfl]
    -- A second quote in the other text would be one in this text as well.
    rintro other - rfl
    obtain ⟨cs, rfl⟩ := List.head?_eq_some_iff.mp head.symm
    exact notDoubled cs rfl rfl
  | case4 c cs notDoubled notQuote ih =>
    obtain ⟨⟨inner, after⟩, found, same⟩ := Option.map_eq_some_iff.mp h
    cases same
    rw [List.cons_append, scanSingleQuoted, if_neg notQuote, ih found head]
    · rfl
    · grind

theorem scanDoubleQuoted_append_of {t text rest : Text}
    (h : scanDoubleQuoted t = some (text, rest)) (rest' : Text) :
    scanDoubleQuoted (text ++ '"' :: rest') = some (text, rest') := by
  fun_induction scanDoubleQuoted t generalizing text rest with
  | case1 => contradiction
  | case2 c cs ih =>
    obtain ⟨⟨inner, after⟩, found, same⟩ := Option.map_eq_some_iff.mp h
    cases same
    simp [scanDoubleQuoted, ih found]
  | case3 cs => contradiction
  | case4 cs => cases h; simp [scanDoubleQuoted]
  | case5 c cs _ notEscape notQuote ih =>
    obtain ⟨⟨inner, after⟩, found, same⟩ := Option.map_eq_some_iff.mp h
    cases same
    rw [List.cons_append, scanDoubleQuoted, if_neg notEscape, if_neg notQuote, ih found]
    · rfl
    · grind

/-! ## Scalars and keys -/

theorem head_append {s : Text} (nonempty : s ≠ []) (t u : Text) :
    (s ++ t).head? = (s ++ u).head? := by
  cases s with
  | nil => contradiction
  | cons c s => rfl

/-- What a scalar needs of the text `rest'` behind it to end where it ends in front of `rest`. -/
structure EndsAlike (inFlow : Bool) (rest rest' : Text) : Prop where
  head : rest'.head? = rest.head?
  stops : plainStops inFlow rest → plainStops inFlow rest'

theorem scanScalar_eq_plain {inFlow : Bool} {t text rest : Text} :
    scanScalar inFlow t = some ⟨.plain, text, rest⟩ ↔
      (∀ c ∈ t.head?, c ≠ '\'' ∧ c ≠ '"') ∧ scanPlain inFlow t = (text, rest) := by
  unfold scanScalar
  split
  · simp
  · simp
  · rename_i notSingle notDouble
    simp only [Option.some.injEq, Scanned.mk.injEq, true_and, Prod.ext_iff, iff_and_self, and_imp]
    rintro - - c opening
    obtain ⟨cs, rfl⟩ := List.head?_eq_some_iff.mp opening
    exact ⟨fun same => notSingle cs (by rw [same]), fun same => notDouble cs (by rw [same])⟩

theorem scanScalar_append_of {inFlow : Bool} {t rest' : Text} {found : Scanned} (lead : Text)
    (h : scanScalar inFlow t = some found) (nonempty : ¬ (found.style = .plain ∧ found.text = []))
    (alike : EndsAlike inFlow found.rest rest') :
    scanScalar inFlow ((Scalar.fresh lead found.style found.text).written ++ rest') =
      some { found with rest := rest' } := by
  have whole := scanScalar_eq h lead
  obtain ⟨style, text, rest⟩ := found
  cases style with
  | plain =>
    obtain ⟨notQuote, scanned⟩ := scanScalar_eq_plain.mp h
    have nonempty : text ≠ [] := fun empty => nonempty ⟨rfl, empty⟩
    rw [show t = text ++ rest from whole] at scanned notQuote
    refine scanScalar_eq_plain.mpr ⟨?_, scanPlain_append_of scanned nonempty ?_ ?_⟩
    · rwa [head_append nonempty rest rest'] at notQuote
    · rw [colonEnds_of_head alike.head]
      exact id
    · exact alike.stops (scanPlain_eq scanned nonempty).2.1
  | singleQuoted =>
    unfold scanScalar at h
    split at h
    · obtain ⟨⟨text, rest⟩, scanned, same⟩ := Option.map_eq_some_iff.mp h
      cases same
      have again := scanSingleQuoted_append_of scanned alike.head
      simp [Scalar.fresh, Scalar.written, scanScalar, again]
    · obtain ⟨_, -, same⟩ := Option.map_eq_some_iff.mp h
      cases same
    · cases h
  | doubleQuoted =>
    unfold scanScalar at h
    split at h
    · obtain ⟨_, -, same⟩ := Option.map_eq_some_iff.mp h
      cases same
    · obtain ⟨⟨text, rest⟩, scanned, same⟩ := Option.map_eq_some_iff.mp h
      cases same
      have again := scanDoubleQuoted_append_of scanned rest'
      simp [Scalar.fresh, Scalar.written, scanScalar, again]
    · cases h
  | literal => exact absurd h (by unfold scanScalar; split <;> simp)
  | folded => exact absurd h (by unfold scanScalar; split <;> simp)

theorem eq_append_of_span {p : Char → Bool} {s t u : Text} (h : Text.span p s = (t, u)) :
    s = t ++ u ∧ ∀ c ∈ t, p c = true := by
  obtain ⟨rfl, rfl⟩ := Prod.mk.inj h
  exact ⟨(Text.span_append p s).symm, List.all_eq_true.mp List.all_takeWhile⟩

theorem span_inlineBlanks {blanks : Text} {d : Char} {t : Text}
    (all : ∀ c ∈ blanks, isInlineBlank c = true) (solid : isInlineBlank d = false) :
    Text.span isInlineBlank (blanks ++ d :: t) = (blanks, d :: t) := by
  rw [Text.span, List.takeWhile_append_of_pos all, List.dropWhile_append_of_pos all]
  simp [solid]

/-- Whether a scalar that ends in front of `t` is the key of an entry. -/
def keyFollows (t : Text) : Bool :=
  match Text.span isInlineBlank t with
  | (_, ':' :: after) => blankOrEnd after
  | _ => false

theorem keyFollows_inlineBlanks {blanks : Text} {d : Char} {t : Text}
    (all : ∀ c ∈ blanks, isInlineBlank c = true) (solid : isInlineBlank d = false) :
    keyFollows (blanks ++ d :: t) = (decide (d = ':') && blankOrEnd t) := by
  unfold keyFollows
  rw [span_inlineBlanks all solid]
  by_cases colon : d = ':'
  · subst colon
    simp
  · simp [colon]

theorem opensEntry_of_scanScalar {t : Text} {found : Scanned} (h : scanScalar false t = some found)
    (nonempty : ¬ (found.style = .plain ∧ found.text = [])) (canOpen : cannotOpenKey t = false) :
    opensEntry t = keyFollows found.rest := by
  obtain ⟨style, text, rest⟩ := found
  unfold opensEntry scanKey keyFollows
  rw [if_neg (by simp [canOpen]), h]
  dsimp only
  rw [if_neg nonempty]
  obtain ⟨gap, after⟩ := Text.span isInlineBlank rest
  cases after with
  | nil => rfl
  | cons c after =>
    by_cases colon : c = ':'
    · subst colon
      by_cases ends : blankOrEnd after = true
      · simp [ends]
      · simp [ends]
    · simp [colon]

theorem opensEntry_of_cannotOpenKey {t : Text} (h : cannotOpenKey t = true) :
    opensEntry t = false := by
  simp [opensEntry, scanKey, h]

theorem cannotOpenKey_of_head {s t : Text} (h : s.head? = t.head?) :
    cannotOpenKey s = cannotOpenKey t := by
  cases s <;> cases t <;> simp_all [cannotOpenKey]

/-- The first character decides, and after it only whether a blank follows. -/
theorem unsupported_cons_of {c : Char} {t t' : Text}
    (blank : blankOrEnd t' = true → blankOrEnd t = true) (h : unsupported (c :: t) = none) :
    unsupported (c :: t') = none := by
  unfold unsupported
  split <;> rename_i same
  all_goals try
    obtain ⟨rfl, rfl⟩ := List.cons.inj same
    simp_all [unsupported]
  rfl

theorem opensItem_cons_of {c : Char} {t t' : Text}
    (blank : blankOrEnd t' = true → blankOrEnd t = true) (h : opensItem (c :: t) = false) :
    opensItem (c :: t') = false := by
  unfold opensItem
  split <;> rename_i same
  · obtain ⟨rfl, rfl⟩ := List.cons.inj same
    simp only [opensItem] at h
    exact eq_false_of_ne_true fun closed => Bool.noConfusion ((blank closed).symm.trans h)
  · rfl

theorem blankOrEnd_append_of {s rest rest' : Text}
    (blank : blankOrEnd rest' = true → blankOrEnd rest = true) :
    blankOrEnd (s ++ rest') = true → blankOrEnd (s ++ rest) = true := by
  cases s with
  | nil => exact blank
  | cons d s => exact id

theorem unsupported_append_of {s rest rest' : Text} (nonempty : s ≠ [])
    (blank : blankOrEnd rest' = true → blankOrEnd rest = true)
    (h : unsupported (s ++ rest) = none) : unsupported (s ++ rest') = none := by
  obtain ⟨c, s, rfl⟩ := List.exists_cons_of_ne_nil nonempty
  exact unsupported_cons_of (blankOrEnd_append_of blank) h

theorem opensItem_append_of {s rest rest' : Text} (nonempty : s ≠ [])
    (blank : blankOrEnd rest' = true → blankOrEnd rest = true)
    (h : opensItem (s ++ rest) = false) : opensItem (s ++ rest') = false := by
  obtain ⟨c, s, rfl⟩ := List.exists_cons_of_ne_nil nonempty
  exact opensItem_cons_of (blankOrEnd_append_of blank) h

theorem endsAlike_colon {inFlow : Bool} {gap rest rest' : Text}
    (inline : ∀ c ∈ gap, isInlineBlank c = true) (closed : blankOrEnd rest' = true) :
    EndsAlike inFlow (gap ++ ':' :: rest) (gap ++ ':' :: rest') := by
  refine ⟨?_, fun _ => ?_⟩
  · cases gap <;> rfl
  · rw [plainStops_inlineBlanks inline rfl, plainRun_cons_eq_nil]
    exact .inr (.inr (.inl ⟨rfl, colonEnds_of_blankOrEnd closed⟩))

/-- A key as `scanKey` finds it. -/
theorem scanKey_eq_some {t : Text} {found : ScannedKey} :
    scanKey t = some found ↔ cannotOpenKey t = false ∧
      scanScalar false t = some ⟨found.style, found.text, found.gap ++ ':' :: found.rest⟩ ∧
      ¬ (found.style = .plain ∧ found.text = []) ∧ (∀ c ∈ found.gap, isInlineBlank c = true) ∧
      blankOrEnd found.rest = true := by
  constructor
  · intro h
    unfold scanKey at h
    split at h
    · contradiction
    rename_i canOpen
    split at h
    · contradiction
    rename_i style text rest scanned
    split at h
    · contradiction
    rename_i nonempty
    split at h
    · rename_i gap after cut
      obtain ⟨rfl, inline⟩ := eq_append_of_span cut
      split at h
      · rename_i closed
        cases h
        exact ⟨eq_false_of_ne_true canOpen, scanned, nonempty, inline, closed⟩
      · contradiction
    · contradiction
  · rintro ⟨canOpen, scanned, nonempty, inline, closed⟩
    unfold scanKey
    rw [if_neg (by simp [canOpen]), scanned]
    dsimp only
    rw [if_neg nonempty, span_inlineBlanks inline rfl]
    simp only [closed, if_true]

/-- A key is the same whatever follows its colon and the blank behind that. -/
theorem scanKey_append_of {t rest' : Text} {found : ScannedKey} (lead : Text)
    (h : scanKey t = some found) (closed : blankOrEnd rest' = true) :
    scanKey ((Scalar.fresh lead found.style found.text).written ++ (found.gap ++ ':' :: rest')) =
      some { found with rest := rest' } := by
  obtain ⟨canOpen, scanned, nonempty, inline, -⟩ := scanKey_eq_some.mp h
  have whole := scanScalar_eq scanned lead
  have again := scanScalar_append_of lead scanned nonempty (endsAlike_colon inline closed)
  refine scanKey_eq_some.mpr ⟨?_, again, nonempty, inline, closed⟩
  rw [← canOpen, whole]
  exact cannotOpenKey_of_head (head_append (written_ne_nil nonempty) _ _)

/-- The characters in front up to the first blank. -/
def firstWord (t : Text) : Text := t.takeWhile fun c => !isBlank c

theorem firstWord_cons (c : Char) (t : Text) :
    firstWord (c :: t) = if isBlank c then [] else c :: firstWord t := by
  unfold firstWord
  cases blank : isBlank c <;> simp [blank]

theorem firstWord_eq_nil {t : Text} : firstWord t = [] ↔ blankOrEnd t = true := by
  cases t with
  | nil => simp [firstWord, blankOrEnd]
  | cons c t => simp [firstWord_cons, blankOrEnd]

/-- A word ends at a blank, whatever follows. -/
theorem firstWord_append (word : Text) {rest : Text} (closed : blankOrEnd rest = true) :
    firstWord (word ++ rest) = firstWord word := by
  induction word with
  | nil => rw [List.nil_append, firstWord_eq_nil.mpr closed]; rfl
  | cons c word ih => rw [List.cons_append, firstWord_cons, firstWord_cons, ih]

theorem firstWord_append_rest (t : Text) :
    ∃ rest, t = firstWord t ++ rest ∧ blankOrEnd rest = true := by
  induction t with
  | nil => exact ⟨[], rfl, rfl⟩
  | cons c t ih =>
    cases blank : isBlank c with
    | true => exact ⟨c :: t, by simp [firstWord_cons, blank], blank⟩
    | false =>
      obtain ⟨rest, whole, closed⟩ := ih
      refine ⟨rest, ?_, closed⟩
      simp only [firstWord_cons, blank, Bool.false_eq_true, if_false, List.cons_append, ← whole]

/-- Items and documents are opened and closed by words of their own. -/
theorem opensItem_iff {t : Text} : opensItem t = true ↔ firstWord t = ['-'] := by
  constructor
  · intro opens
    obtain ⟨rest, rfl, closed⟩ := opensItem_eq_true opens
    exact firstWord_append ['-'] closed
  · intro word
    obtain ⟨rest, whole, closed⟩ := firstWord_append_rest t
    rw [whole, word]
    exact closed

theorem opensDocument_iff {t : Text} : opensDocument t = true ↔ firstWord t = ['-', '-', '-'] := by
  constructor
  · intro opens
    unfold opensDocument at opens
    split at opens
    · exact firstWord_append ['-', '-', '-'] opens
    · contradiction
  · intro word
    obtain ⟨rest, whole, closed⟩ := firstWord_append_rest t
    rw [whole, word]
    exact closed

theorem closesDocument_iff {t : Text} :
    closesDocument t = true ↔ firstWord t = ['.', '.', '.'] := by
  constructor
  · intro closes
    unfold closesDocument at closes
    split at closes
    · exact firstWord_append ['.', '.', '.'] closes
    · contradiction
  · intro word
    obtain ⟨rest, whole, closed⟩ := firstWord_append_rest t
    rw [whole, word]
    exact closed

theorem opensItem_of_firstWord {s t : Text} (h : firstWord s = firstWord t) :
    opensItem s = opensItem t := by
  rw [Bool.eq_iff_iff, opensItem_iff, opensItem_iff, h]

theorem opensDocument_of_firstWord {s t : Text} (h : firstWord s = firstWord t) :
    opensDocument s = opensDocument t := by
  rw [Bool.eq_iff_iff, opensDocument_iff, opensDocument_iff, h]

theorem closesDocument_of_firstWord {s t : Text} (h : firstWord s = firstWord t) :
    closesDocument s = closesDocument t := by
  rw [Bool.eq_iff_iff, closesDocument_iff, closesDocument_iff, h]

theorem isMarker_of_firstWord {s t : Text} (h : firstWord s = firstWord t) :
    isMarker s = isMarker t := by
  rw [isMarker, isMarker, opensDocument_of_firstWord h, closesDocument_of_firstWord h]

/-! ## Literal and folded scalars -/

theorem contentLines_cons_eq_nil {floor : Nat} {line : Text} {lines : List Text} :
    contentLines floor (line :: lines) = [] ↔
      if line.isBlank then contentLines floor lines = []
      else indentation line < floor ∨ isMarker line = true := by
  rw [contentLines]
  split
  · split <;> simp_all
  · split <;> simp_all

theorem contentLines_cons_eq_cons {floor : Nat} {line : Text} {lines kept : List Text} :
    contentLines floor (line :: lines) = line :: kept ↔ contentLines floor lines = kept ∧
      if line.isBlank then kept ≠ [] else ¬ (indentation line < floor ∨ isMarker line = true) := by
  rw [contentLines]
  split
  · split <;> simp_all
    grind
  · split <;> simp_all

/-- The lines taken end where they end if the lines behind give no more content. -/
theorem contentLines_append {floor : Nat} {lines others : List Text} :
    contentLines floor (lines ++ others) = lines ↔
      contentLines floor lines = lines ∧ contentLines floor others = [] := by
  induction lines with
  | nil => simp [contentLines]
  | cons line lines ih =>
    rw [List.cons_append, contentLines_cons_eq_cons, contentLines_cons_eq_cons, ih, and_assoc,
      and_assoc, and_comm (a := contentLines floor others = [])]

/-- Whether no line from here on belongs to a literal or folded scalar any more. -/
def contentEnds (floor : Nat) (t : Text) : Prop := contentLines floor (Text.splitOn '\n' t) = []

theorem contentEnds_line {floor : Nat} {line t : Text} (h : '\n' ∉ line) :
    contentEnds floor (line ++ '\n' :: t) ↔
      if line.isBlank then contentEnds floor t
      else indentation line < floor ∨ isMarker line = true := by
  rw [contentEnds, Text.splitOn_append_cons, Text.splitOn_of_notMem h, List.singleton_append,
    contentLines_cons_eq_nil]
  rfl

/-- The first line of a text, and its end with all lines behind it. -/
theorem exists_firstLine (t : Text) :
    ∃ line others, t = line ++ others ∧ '\n' ∉ line ∧ (others = [] ∨ ∃ u, others = '\n' :: u) := by
  by_cases inside : '\n' ∈ t
  · obtain ⟨line, others, rfl, notInside⟩ := List.eq_append_cons_of_mem inside
    exact ⟨line, '\n' :: others, rfl, notInside, .inr ⟨others, rfl⟩⟩
  · exact ⟨t, [], (List.append_nil t).symm, inside, .inl rfl⟩

theorem contentEnds_firstLine {floor : Nat} {line others : Text} (h : '\n' ∉ line)
    (ends : others = [] ∨ ∃ u, others = '\n' :: u) (solid : line.isBlank = false) :
    contentEnds floor (line ++ others) ↔ indentation line < floor ∨ isMarker line = true := by
  rcases ends with rfl | ⟨u, rfl⟩
  · rw [List.append_nil, contentEnds, Text.splitOn_of_notMem h, contentLines_cons_eq_nil]
    simp [solid]
  · rw [contentEnds_line h]
    simp [solid]

theorem isBlank_eq_false {line : Text} (h : ∃ c ∈ line, isWhiteSpace c = false) :
    line.isBlank = false := by
  obtain ⟨c, inside, solid⟩ := h
  exact List.all_eq_false.mpr ⟨c, inside, by simp [solid]⟩

/-- The line of a word that ends is told by the word. -/
theorem contentEnds_word {floor : Nat} {common rest : Text} (h : '\n' ∉ common)
    (solid : ∃ c ∈ common, isWhiteSpace c = false) (closed : blankOrEnd rest = true) :
    contentEnds floor (common ++ rest) ↔ indentation common < floor ∨ isMarker common = true := by
  obtain ⟨line, others, rfl, notInside, ends⟩ := exists_firstLine rest
  have closed : blankOrEnd line = true := by
    cases line with
    | nil => rfl
    | cons c line => exact closed
  have solid' : ∃ c ∈ common ++ line, isWhiteSpace c = false := by
    obtain ⟨c, inside, solid⟩ := solid
    exact ⟨c, List.mem_append_left _ inside, solid⟩
  have sameIndentation : indentation (common ++ line) = indentation common := by
    obtain ⟨c, inside, solid⟩ := solid
    have notSpace : ¬ (common.takeWhile (· = ' ')).length = common.length := by
      intro all
      have same := List.IsPrefix.eq_of_length (List.takeWhile_prefix (· = ' ')) all
      rw [← same] at inside
      have space : c = ' ' := by
        simpa using List.all_eq_true.mp (List.all_takeWhile (p := (· = ' ')) (l := common)) c inside
      rw [space] at solid
      contradiction
    rw [indentation, List.takeWhile_append, if_neg notSpace, indentation]
  rw [← List.append_assoc, contentEnds_firstLine (by simp [h, notInside]) ends
    (isBlank_eq_false solid'),
    sameIndentation, isMarker_of_firstWord (firstWord_append common closed)]

/-- A literal or folded scalar that ends somewhere ends there whatever follows the next word. -/
theorem contentEnds_append {floor : Nat} {common rest rest' : Text}
    (solid : ∃ c ∈ common, isWhiteSpace c = false) (closed : blankOrEnd rest = true)
    (closed' : blankOrEnd rest' = true) (h : contentEnds floor (common ++ rest)) :
    contentEnds floor (common ++ rest') := by
  by_cases inside : '\n' ∈ common
  · obtain ⟨line, others, rfl, notInside⟩ := List.eq_append_cons_of_mem inside
    rw [List.append_assoc, List.cons_append, contentEnds_line notInside] at h ⊢
    split
    · rename_i blank
      rw [if_pos blank] at h
      refine contentEnds_append ?_ closed closed' h
      obtain ⟨c, inside, solid⟩ := solid
      refine ⟨c, ?_, solid⟩
      rcases List.mem_append.mp inside with inside | inside
      · rw [List.all_eq_true.mp blank c inside] at solid
        contradiction
      · rcases List.mem_cons.mp inside with rfl | inside
        · contradiction
        · exact inside
    · rename_i notBlank
      rwa [if_neg notBlank] at h
  · rw [contentEnds_word inside solid closed] at h
    rwa [contentEnds_word inside solid closed']
termination_by common.length
decreasing_by simp_all; omega

/-- The text of a literal or folded scalar is made of whole lines, all of them content but the
first, and ends where no more content follows. -/
theorem scanBlockScalar_eq_iff {floor : Nat} {text rest : Text} :
    scanBlockScalar floor (text ++ rest) = (text, rest) ↔
      (∃ header lines, Text.splitOn '\n' text = header :: lines ∧
        contentLines floor lines = lines) ∧
      (rest = [] ∨ ∃ t, rest = '\n' :: t ∧ contentEnds floor t) := by
  constructor
  · intro h
    obtain ⟨header, lines, split, taken⟩ := scanBlockScalar_eq floor (text ++ rest)
    rw [h] at taken
    obtain ⟨others, whole⟩ := contentLines_isPrefix floor lines
    have content : contentLines floor (contentLines floor lines ++ others) =
      contentLines floor lines :=
      congrArg (contentLines floor) whole
    generalize contentLines floor lines = kept at whole taken content
    subst whole taken
    have noLineFeed : ∀ piece ∈ header :: (kept ++ others), '\n' ∉ piece := fun piece inside =>
      Text.notMem_of_mem_splitOn (split ▸ inside)
    have splitText : Text.splitOn '\n' (Text.joinWith '\n' (header :: kept)) = header :: kept :=
      Text.splitOn_joinWith (List.cons_ne_nil _ _) fun piece inside => noLineFeed piece (by grind)
    obtain ⟨contentKept, contentOthers⟩ := contentLines_append.mp content
    refine ⟨⟨header, kept, splitText, contentKept⟩, ?_⟩
    have joined := Text.joinWith_splitOn '\n' (Text.joinWith '\n' (header :: kept) ++ rest)
    rw [split, ← List.cons_append] at joined
    cases others with
    | nil =>
      rw [List.append_nil] at joined
      exact .inl (List.self_eq_append_right.mp joined)
    | cons line others =>
      rw [Text.joinWith_append '\n' (List.cons_ne_nil _ _) (List.cons_ne_nil _ _),
        List.append_cancel_left_eq] at joined
      refine .inr ⟨_, joined.symm, ?_⟩
      rw [contentEnds, Text.splitOn_joinWith (List.cons_ne_nil _ _) fun piece inside =>
        noLineFeed piece (by grind)]
      exact contentOthers
  · rintro ⟨⟨header, lines, split, content⟩, ends⟩
    have whole := Text.joinWith_splitOn '\n' text
    unfold scanBlockScalar
    rcases ends with rfl | ⟨t, rfl, ends⟩
    · rw [List.append_nil, split]
      dsimp only
      rw [content, ← split, whole, List.drop_length]
    · rw [Text.splitOn_append_cons, split, List.cons_append]
      dsimp only
      rw [contentLines_append.mpr ⟨content, ends⟩, ← split, whole, List.drop_left]

end ConfigTree.Yaml
