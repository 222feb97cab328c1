import ConfigTree.Maven.Bindings

/-!
# Expansion goes ten levels down

A round of expansion replaces the placeholders that stand in a text, and leaves those that come in
with the values to the next round. Where a dollar sign only opens placeholders, nothing else comes
about: what a round gives is cut at the same places as the text before. So after as many rounds as
the references are deep all of them are followed, and the text is the full expansion, which goes
down into each value by itself.
-/

namespace ConfigTree.Maven

/-- A character other than a dollar sign, or a placeholder with a plain name. -/
def Segment.Proper : Segment → Prop
  | .char c => c ≠ '$'
  | .placeholder name => ∀ c ∈ name, c ≠ '$' ∧ c ≠ '\x7b' ∧ c ≠ '\x7d'

/-- The segments as they stand in a text. -/
def written (ss : List Segment) : Text := ss.flatMap Segment.written

/-- A text in which a dollar sign only opens placeholders with plain names. -/
def Templated (t : Text) : Prop := ∃ ss : List Segment, (∀ s ∈ ss, s.Proper) ∧ written ss = t

/-- A placeholder with a plain name stands in the text. -/
def Mentions (t name : Text) : Prop :=
  (Segment.placeholder name).Proper ∧ (Segment.placeholder name).written <:+: t

namespace Bindings

variable (b : Bindings)

/-- References go at most so many levels down from a text: in a text at the lowest level no bound
name is mentioned. -/
def NestsWithin : Nat → Text → Prop
  | 0, t => ∀ name, Mentions t name → b.find? name = none
  | levels + 1, t => ∀ name value, Mentions t name → b.find? name = some value →
      NestsWithin levels value

/-- Full expansion: a placeholder of a bound name gives way to the full expansion of the value, and
any other stays as it is written. -/
inductive ExpandsTo : Text → Text → Prop where
  | nil : ExpandsTo [] []
  | char {c : Char} {t u : Text} (plain : c ≠ '$') (others : ExpandsTo t u) :
      ExpandsTo (c :: t) (c :: u)
  | unbound {name t u : Text} (proper : (Segment.placeholder name).Proper)
      (unknown : b.find? name = none) (others : ExpandsTo t u) :
      ExpandsTo ((Segment.placeholder name).written ++ t) ((Segment.placeholder name).written ++ u)
  | bound {name value w t u : Text} (proper : (Segment.placeholder name).Proper)
      (known : b.find? name = some value) (inner : ExpandsTo value w) (others : ExpandsTo t u) :
      ExpandsTo ((Segment.placeholder name).written ++ t) (w ++ u)

/-- The text after one round. -/
def round (t : Text) : Text := (segments t).flatMap b.expandSegment

end Bindings

theorem segmentsFrom_name {name : Text} (noBrace : '\x7d' ∉ name) (read t : Text) :
    segmentsFrom (some read) (name ++ '\x7d' :: t) =
      .placeholder (read.reverse ++ name) :: segmentsFrom none t := by
  induction name generalizing read with
  | nil => simp [segmentsFrom]
  | cons c name ih =>
    rw [List.mem_cons, not_or] at noBrace
    rw [List.cons_append, segmentsFrom, if_neg (Ne.symm noBrace.1), ih noBrace.2]
    simp

theorem segments_char {c : Char} (plain : c ≠ '$') (t : Text) :
    segments (c :: t) = .char c :: segments t := by
  simp [segments, segmentsFrom, plain]

theorem segments_placeholder {name : Text} (proper : (Segment.placeholder name).Proper) (t : Text) :
    segments ((Segment.placeholder name).written ++ t) = .placeholder name :: segments t := by
  have noBrace : '\x7d' ∉ name := fun inside => (proper _ inside).2.2 rfl
  simpa [segments, Segment.written, segmentsFrom] using segmentsFrom_name noBrace [] t

theorem segments_written_append {ss : List Segment} (proper : ∀ s ∈ ss, s.Proper) (t : Text) :
    segments (written ss ++ t) = ss ++ segments t := by
  induction ss with
  | nil => rfl
  | cons s ss ih =>
    obtain ⟨first, others⟩ := List.forall_mem_cons.mp proper
    rw [written, List.flatMap_cons, List.append_assoc]
    cases s with
    | char c =>
      rw [Segment.written, List.singleton_append, segments_char first, ← written, ih others]
      rfl
    | placeholder name =>
      rw [segments_placeholder first, ← written, ih others]
      rfl

theorem segments_written {ss : List Segment} (proper : ∀ s ∈ ss, s.Proper) :
    segments (written ss) = ss := by
  simpa [segments, segmentsFrom] using segments_written_append proper []

theorem written_chars (t : Text) : written (t.map .char) = t := by
  induction t with
  | nil => rfl
  | cons c t ih => exact congrArg (c :: ·) ih

theorem written_segmentsFrom (read : Option Text) (t : Text) :
    written (segmentsFrom read t) =
      match read with
      | none => t
      | some name => '$' :: '\x7b' :: name.reverse ++ t := by
  fun_induction segmentsFrom read t with
  | case1 => rfl
  | case2 name =>
    rw [written_chars]
    exact (List.append_nil _).symm
  | case3 cs ih => simpa using ih
  | case4 c cs _ ih => simpa [written, Segment.written] using ih
  | case5 name cs ih => simpa [written, Segment.written] using ih
  | case6 name c cs _ ih => simpa using ih

/-- Cutting a text loses nothing. -/
theorem written_segments (t : Text) : written (segments t) = t := written_segmentsFrom none t

theorem templated_iff {t : Text} : Templated t ↔ ∀ s ∈ segments t, s.Proper := by
  constructor
  · rintro ⟨ss, proper, rfl⟩
    rwa [segments_written proper]
  · intro proper
    exact ⟨segments t, proper, written_segments t⟩

instance (s : Segment) : Decidable s.Proper :=
  match s with
  | .char c => inferInstanceAs (Decidable (c ≠ '$'))
  | .placeholder name => List.decidableBAll (fun c => c ≠ '$' ∧ c ≠ '\x7b' ∧ c ≠ '\x7d') name

instance (t : Text) : Decidable (Templated t) := decidable_of_iff' _ templated_iff

/-- Texts with placeholders are cut apart where they were put together. -/
theorem segments_append {s : Text} (templated : Templated s) (t : Text) :
    segments (s ++ t) = segments s ++ segments t := by
  obtain ⟨ss, proper, rfl⟩ := templated
  rw [segments_written_append proper, segments_written proper]

theorem Templated.append {s t : Text} (first : Templated s) (second : Templated t) :
    Templated (s ++ t) := by
  rw [templated_iff] at second ⊢
  rw [segments_append first]
  exact List.forall_mem_append.mpr ⟨templated_iff.mp first, second⟩

theorem templated_written {s : Segment} (proper : s.Proper) : Templated s.written :=
  ⟨[s], by simpa using proper, by simp [written]⟩

theorem segments_of_written {s : Segment} (proper : s.Proper) : segments s.written = [s] := by
  have cut := segments_written (List.forall_mem_singleton.mpr proper)
  rwa [written, List.flatMap_singleton] at cut

/-- No placeholder begins where there is no dollar sign. -/
theorem written_infix_append {s : Text} (noDollar : '$' ∉ s) (name t : Text) :
    (Segment.placeholder name).written <:+: s ++ t ↔ (Segment.placeholder name).written <:+: t := by
  induction s with
  | nil => rfl
  | cons c s ih =>
    rw [List.mem_cons, not_or] at noDollar
    have notHere : ¬ (Segment.placeholder name).written <+: c :: (s ++ t) :=
      fun h => noDollar.1 (List.cons_prefix_cons.mp h).1
    rw [List.cons_append, List.infix_cons_iff, ih noDollar.2, or_iff_right notHere]

theorem mentions_append {s : Segment} (proper : s.Proper) (t name : Text) :
    Mentions (s.written ++ t) name ↔
      (Segment.placeholder name).Proper ∧ s = .placeholder name ∨ Mentions t name := by
  rw [Mentions, Mentions, ← and_or_left]
  refine and_congr_right fun named => ?_
  cases s with
  | char c =>
    have noDollar : '$' ∉ [c] := by simpa using Ne.symm proper
    rw [Segment.written, written_infix_append noDollar]
    simp
  | placeholder other =>
    have noDollar : '$' ∉ '\x7b' :: other ++ ['\x7d'] := by
      have inside : '$' ∉ other := fun inside => (proper _ inside).1 rfl
      simp [inside]
    have first : (Segment.placeholder name).written <+: (Segment.placeholder other).written ++ t ↔
        Segment.placeholder other = .placeholder name := by
      constructor
      · rintro ⟨rest, same⟩
        have cut := congrArg segments same
        rw [segments_placeholder named, segments_placeholder proper] at cut
        exact (List.cons.inj cut).1.symm
      · intro same
        rw [same]
        exact List.prefix_append _ _
    rw [← first, ← written_infix_append noDollar name t]
    exact List.infix_cons_iff

/-- The names that a text mentions are those of its segments. -/
theorem mentions_iff {t : Text} (templated : Templated t) (name : Text) :
    Mentions t name ↔ .placeholder name ∈ segments t := by
  obtain ⟨ss, proper, rfl⟩ := templated
  rw [segments_written proper]
  induction ss with
  | nil => simp [written, Mentions, Segment.written]
  | cons s ss ih =>
    obtain ⟨first, others⟩ := List.forall_mem_cons.mp proper
    rw [written, List.flatMap_cons, ← written, mentions_append first, ih others, List.mem_cons]
    refine or_congr_left ⟨fun h => h.2.symm, fun h => ⟨h ▸ first, h.symm⟩⟩

namespace Bindings

variable {b : Bindings} {t : Text}

/-- In the values, too, a dollar sign only opens placeholders. -/
def TemplatedValues (b : Bindings) : Prop :=
  ∀ name value, b.find? name = some value → Templated value

/-! ## One round -/

theorem templated_expandSegment (values : b.TemplatedValues) {s : Segment} (proper : s.Proper) :
    Templated (b.expandSegment s) := by
  cases s with
  | char c => exact templated_written proper
  | placeholder name =>
    rw [expandSegment]
    cases found : b.find? name with
    | none => exact templated_written proper
    | some value => exact values name value found

/-- A round leaves the cuts of the text and adds those of the values. -/
theorem segments_round (text : Templated t) (values : b.TemplatedValues) :
    segments (b.round t) = (segments t).flatMap fun s => segments (b.expandSegment s) := by
  have proper := templated_iff.mp text
  rw [round]
  generalize segments t = ss at proper ⊢
  induction ss with
  | nil => rfl
  | cons s ss ih =>
    obtain ⟨first, others⟩ := List.forall_mem_cons.mp proper
    have cut := segments_append (templated_expandSegment values first)
    rw [List.flatMap_cons, List.flatMap_cons, cut, ih others]

theorem templated_round (text : Templated t) (values : b.TemplatedValues) :
    Templated (b.round t) := by
  rw [templated_iff, segments_round text values]
  intro s inside
  obtain ⟨outer, isIn, inside⟩ := List.mem_flatMap.mp inside
  have proper := templated_iff.mp text outer isIn
  exact templated_iff.mp (templated_expandSegment values proper) s inside

theorem mem_segments_expandSegment {s : Segment} (proper : s.Proper) (name : Text) :
    .placeholder name ∈ segments (b.expandSegment s) ↔
      s = .placeholder name ∧ b.find? name = none ∨
        ∃ outer value, s = .placeholder outer ∧ b.find? outer = some value ∧
          .placeholder name ∈ segments value := by
  cases s with
  | char c => simp [expandSegment, segments, segmentsFrom]
  | placeholder outer =>
    rw [expandSegment]
    cases found : b.find? outer with
    | none =>
      rw [Option.getD_none, segments_of_written proper, List.mem_singleton]
      constructor
      · intro same
        exact .inl ⟨same.symm, (Segment.placeholder.inj same) ▸ found⟩
      · rintro (⟨same, -⟩ | ⟨other, value, same, known, -⟩)
        · exact same.symm
        · rw [← Segment.placeholder.inj same, found] at known
          contradiction
    | some value =>
      rw [Option.getD_some]
      constructor
      · intro inside
        exact .inr ⟨outer, value, rfl, found, inside⟩
      · rintro (⟨same, unknown⟩ | ⟨other, value', same, known, inside⟩)
        · rw [← Segment.placeholder.inj same, found] at unknown
          contradiction
        · rw [← Segment.placeholder.inj same, found] at known
          exact (Option.some.inj known) ▸ inside

/-- A round leaves the names without a value and brings in those that the values mention. -/
theorem mentions_round (text : Templated t) (values : b.TemplatedValues) (name : Text) :
    Mentions (b.round t) name ↔
      Mentions t name ∧ b.find? name = none ∨
        ∃ outer value, Mentions t outer ∧ b.find? outer = some value ∧ Mentions value name := by
  have proper := templated_iff.mp text
  rw [mentions_iff (templated_round text values), segments_round text values, List.mem_flatMap,
    mentions_iff text]
  constructor
  · rintro ⟨s, isIn, inside⟩
    rcases (mem_segments_expandSegment (proper s isIn) name).mp inside with
      ⟨rfl, unknown⟩ | ⟨outer, value, rfl, known, inside⟩
    · exact .inl ⟨isIn, unknown⟩
    · exact .inr ⟨outer, value, (mentions_iff text outer).mpr isIn, known,
        (mentions_iff (values outer value known) name).mpr inside⟩
  · rintro (⟨isIn, unknown⟩ | ⟨outer, value, mentioned, known, inside⟩)
    · exact ⟨_, isIn, (mem_segments_expandSegment (proper _ isIn) name).mpr (.inl ⟨rfl, unknown⟩)⟩
    · have isIn := (mentions_iff text outer).mp mentioned
      have inside := (mentions_iff (values outer value known) name).mp inside
      exact ⟨_, isIn, (mem_segments_expandSegment (proper _ isIn) name).mpr
        (.inr ⟨outer, value, rfl, known, inside⟩)⟩

/-- A round takes one level away. -/
theorem nestsWithin_round (text : Templated t) (values : b.TemplatedValues) (levels : Nat) :
    b.NestsWithin levels (b.round t) ↔ b.NestsWithin (levels + 1) t := by
  cases levels with
  | zero =>
    constructor
    · intro nests outer value mentioned known name inside
      apply nests name
      exact (mentions_round text values name).mpr (.inr ⟨outer, value, mentioned, known, inside⟩)
    · intro nests name mentioned
      rcases (mentions_round text values name).mp mentioned with
        ⟨-, unknown⟩ | ⟨outer, value, mentioned, known, inside⟩
      · exact unknown
      · exact nests outer value mentioned known name inside
  | succ levels =>
    constructor
    · intro nests outer value mentioned known name inner inside found
      refine nests name inner ?_ found
      exact (mentions_round text values name).mpr (.inr ⟨outer, value, mentioned, known, inside⟩)
    · intro nests name inner mentioned found
      rcases (mentions_round text values name).mp mentioned with
        ⟨-, unknown⟩ | ⟨outer, value, mentioned, known, inside⟩
      · rw [unknown] at found
        contradiction
      · exact nests outer value mentioned known name inner inside found

theorem any_binds_eq_false_iff (text : Templated t) :
    (segments t).any b.binds = false ↔ b.NestsWithin 0 t := by
  rw [List.any_eq_false, NestsWithin]
  constructor
  · intro unbound name mentioned
    have notBound := unbound _ ((mentions_iff text name).mp mentioned)
    simpa [binds] using notBound
  · rintro unbound (c | name) inside
    · simp [binds]
    · simp [binds, unbound name ((mentions_iff text name).mpr inside)]

theorem NestsWithin.of_zero (nests : b.NestsWithin 0 t) (levels : Nat) :
    b.NestsWithin levels t := by
  cases levels with
  | zero => exact nests
  | succ levels =>
    intro name value mentioned known
    rw [nests name mentioned] at known
    contradiction

theorem templated_expandRounds (text : Templated t) (values : b.TemplatedValues) (rounds : Nat) :
    Templated (b.expandRounds rounds t) := by
  induction rounds generalizing t with
  | zero => exact text
  | succ rounds ih =>
    rw [expandRounds]
    split
    · exact ih (templated_round text values)
    · exact text

/-- Rounds leave a bound name if and only if the references are deeper than the rounds
are many. -/
theorem nestsWithin_expandRounds (text : Templated t) (values : b.TemplatedValues) (rounds : Nat) :
    b.NestsWithin 0 (b.expandRounds rounds t) ↔ b.NestsWithin rounds t := by
  induction rounds generalizing t with
  | zero => rfl
  | succ rounds ih =>
    rw [expandRounds]
    split
    · rw [← nestsWithin_round text values]
      exact ih (templated_round text values)
    · next unbound =>
      have lowest := (any_binds_eq_false_iff text).mp (Bool.not_eq_true _ ▸ unbound)
      exact iff_of_true lowest (lowest.of_zero _)

/-- How deep the references are can be read off what the rounds leave. -/
theorem nestsWithin_iff (text : Templated t) (values : b.TemplatedValues) (levels : Nat) :
    b.NestsWithin levels t ↔ (segments (b.expandRounds levels t)).any b.binds = false := by
  rw [any_binds_eq_false_iff (templated_expandRounds text values levels),
    nestsWithin_expandRounds text values]

theorem ExpandsTo.append {s t u w : Text} (first : b.ExpandsTo s u) (second : b.ExpandsTo t w) :
    b.ExpandsTo (s ++ t) (u ++ w) := by
  induction first with
  | nil => exact second
  | char plain _ ih => exact .char plain ih
  | unbound proper unknown _ ih =>
    rw [List.append_assoc, List.append_assoc]
    exact .unbound proper unknown ih
  | bound proper known inner _ _ ih =>
    rw [List.append_assoc, List.append_assoc]
    exact .bound proper known inner ih

theorem ExpandsTo.templated {u : Text} (h : b.ExpandsTo t u) : Templated t := by
  induction h with
  | nil => exact ⟨[], by simp, rfl⟩
  | @char c _ _ plain _ ih =>
    have proper : (Segment.char c).Proper := plain
    exact (templated_written proper).append ih
  | unbound proper _ _ ih => exact (templated_written proper).append ih
  | bound proper _ _ _ _ ih => exact (templated_written proper).append ih

theorem round_written_append {s : Segment} (proper : s.Proper) (t : Text) :
    b.round (s.written ++ t) = b.expandSegment s ++ b.round t := by
  rw [round, segments_append (templated_written proper), segments_of_written proper]
  rfl

/-- A round does not change what the full expansion is. -/
theorem ExpandsTo.round {u : Text} (h : b.ExpandsTo t u) : b.ExpandsTo (b.round t) u := by
  induction h with
  | nil => exact .nil
  | @char c t _ plain _ ih =>
    have proper : (Segment.char c).Proper := plain
    have first := round_written_append (b := b) proper t
    rw [Segment.written, List.singleton_append] at first
    rw [first]
    exact .char plain ih
  | @unbound name _ _ proper unknown _ ih =>
    rw [round_written_append proper, expandSegment, unknown]
    exact .unbound proper unknown ih
  | @bound name _ _ _ _ proper known inner _ _ ih =>
    rw [round_written_append proper, expandSegment, known]
    exact inner.append ih

theorem ExpandsTo.expandRounds {u : Text} (h : b.ExpandsTo t u) (rounds : Nat) :
    b.ExpandsTo (b.expandRounds rounds t) u := by
  induction rounds generalizing t with
  | zero => exact h
  | succ rounds ih =>
    rw [Bindings.expandRounds]
    split
    · exact ih h.round
    · exact h

theorem mentions_append_text {s : Text} (first : Templated s) (second : Templated t) (name : Text) :
    Mentions (s ++ t) name ↔ Mentions s name ∨ Mentions t name := by
  rw [mentions_iff (first.append second), segments_append first, List.mem_append,
    mentions_iff first, mentions_iff second]

/-- Where no bound name is mentioned, there is nothing to expand. -/
theorem ExpandsTo.eq_of_lowest {u : Text} (h : b.ExpandsTo t u) (lowest : b.NestsWithin 0 t) :
    u = t := by
  induction h with
  | nil => rfl
  | @char c t _ plain _ ih =>
    have proper : (Segment.char c).Proper := plain
    rw [ih fun name inside => lowest name ((mentions_append proper t name).mpr (.inr inside))]
  | unbound proper _ _ ih =>
    rw [ih fun name inside => lowest name ((mentions_append proper _ name).mpr (.inr inside))]
  | bound proper known _ _ _ _ =>
    have unknown := lowest _ ((mentions_append proper _ _).mpr (.inl ⟨proper, rfl⟩))
    rw [known] at unknown
    contradiction

/-- A full expansion is a text with placeholders again, and mentions no bound name. -/
theorem ExpandsTo.lowest {u : Text} (h : b.ExpandsTo t u) : Templated u ∧ b.NestsWithin 0 u := by
  induction h with
  | nil =>
    refine ⟨⟨[], by simp, rfl⟩, ?_⟩
    intro name mentioned
    simp [Mentions, Segment.written] at mentioned
  | @char c _ u plain _ ih =>
    have proper : (Segment.char c).Proper := plain
    refine ⟨(templated_written proper).append ih.1, ?_⟩
    intro name mentioned
    rcases (mentions_append proper u name).mp mentioned with ⟨-, same⟩ | mentioned
    · contradiction
    · exact ih.2 name mentioned
  | @unbound other _ u proper unknown _ ih =>
    refine ⟨(templated_written proper).append ih.1, ?_⟩
    intro name mentioned
    rcases (mentions_append proper u name).mp mentioned with ⟨-, same⟩ | mentioned
    · exact Segment.placeholder.inj same ▸ unknown
    · exact ih.2 name mentioned
  | bound _ _ _ _ inner ih =>
    refine ⟨inner.1.append ih.1, ?_⟩
    intro name mentioned
    rcases (mentions_append_text inner.1 ih.1 name).mp mentioned with mentioned | mentioned
    · exact inner.2 name mentioned
    · exact ih.2 name mentioned

theorem exists_expandsTo_of_values (text : Templated t)
    (inner : ∀ name value, Mentions t name → b.find? name = some value →
      ∃ w, b.ExpandsTo value w) : ∃ u, b.ExpandsTo t u := by
  obtain ⟨ss, proper, rfl⟩ := text
  induction ss with
  | nil => exact ⟨[], .nil⟩
  | cons s ss ih =>
    obtain ⟨first, others⟩ := List.forall_mem_cons.mp proper
    rw [written, List.flatMap_cons, ← written] at inner ⊢
    obtain ⟨u, expands⟩ := ih others fun name value mentioned =>
      inner name value ((mentions_append first _ name).mpr (.inr mentioned))
    cases s with
    | char c => exact ⟨c :: u, .char first expands⟩
    | placeholder name =>
      cases found : b.find? name with
      | none => exact ⟨_, .unbound first found expands⟩
      | some value =>
        have mentioned := (mentions_append first (written ss) name).mpr (.inl ⟨first, rfl⟩)
        obtain ⟨w, expanded⟩ := inner name value mentioned found
        exact ⟨w ++ u, .bound first found expanded expands⟩

/-- Without references that go around in circles there is a full expansion. -/
theorem exists_expandsTo (text : Templated t) (values : b.TemplatedValues) {levels : Nat}
    (nests : b.NestsWithin levels t) : ∃ u, b.ExpandsTo t u := by
  induction levels generalizing t with
  | zero =>
    apply exists_expandsTo_of_values text
    intro name value mentioned known
    rw [nests name mentioned] at known
    contradiction
  | succ levels ih =>
    apply exists_expandsTo_of_values text
    intro name value mentioned known
    exact ih (values name value known) (nests name value mentioned known)

/-- Rounds give the full expansion if and only if they are as many as the references are deep. -/
theorem expandRounds_eq_iff {u : Text} (values : b.TemplatedValues) (full : b.ExpandsTo t u)
    (rounds : Nat) : b.expandRounds rounds t = u ↔ b.NestsWithin rounds t := by
  constructor
  · rintro rfl
    exact (nestsWithin_expandRounds full.templated values rounds).mp full.lowest.2
  · intro nests
    have lowest := (nestsWithin_expandRounds full.templated values rounds).mpr nests
    exact ((full.expandRounds rounds).eq_of_lowest lowest).symm

theorem expandRounds_of_lowest (text : Templated t) (lowest : b.NestsWithin 0 t) (rounds : Nat) :
    b.expandRounds rounds t = t := by
  cases rounds with
  | zero => rfl
  | succ rounds =>
    rw [expandRounds, (any_binds_eq_false_iff text).mpr lowest]
    rfl

/-- Where a dollar sign only opens placeholders and references go at most ten levels down, what
comes of a text is its one full expansion, and it does not change when it is expanded again. -/
theorem expand_of_nestsWithin (text : Templated t) (values : b.TemplatedValues)
    (nests : b.NestsWithin 10 t) :
    (∀ u, b.ExpandsTo t u ↔ b.expand t = u) ∧ b.expand (b.expand t) = b.expand t := by
  obtain ⟨full, expands⟩ := exists_expandsTo text values nests
  have reached : b.expand t = full := (expandRounds_eq_iff values expands 10).mpr nests
  constructor
  · intro u
    constructor
    · intro expands
      exact (expandRounds_eq_iff values expands 10).mpr nests
    · rintro rfl
      rwa [reached]
  · rw [reached]
    exact expandRounds_of_lowest expands.lowest.1 expands.lowest.2 10

theorem templatedValues_iff :
    b.TemplatedValues ↔ ∀ p ∈ b.pairs, b.find? p.1 = some p.2 → Templated p.2 := by
  constructor
  · intro values p _ found
    exact values p.1 p.2 found
  · intro pairs name value found
    obtain ⟨front, behind, split, -⟩ := List.lookup_eq_some_iff.mp found
    exact pairs (name, value) (by simp [split]) found

/-- Ten names, each with the next in its value, and a name without a value in the last. -/
def tenLevels : Bindings :=
  ⟨[("a".toList, "$\x7bb\x7d".toList), ("b".toList, "$\x7bc\x7d".toList),
    ("c".toList, "$\x7bd\x7d".toList), ("d".toList, "$\x7be\x7d".toList),
    ("e".toList, "$\x7bf\x7d".toList), ("f".toList, "$\x7bg\x7d".toList),
    ("g".toList, "$\x7bh\x7d".toList), ("h".toList, "$\x7bi\x7d".toList),
    ("i".toList, "$\x7bj\x7d$\x7bj\x7d".toList), ("j".toList, "1\x7d$\x7bk\x7d".toList)]⟩

def tenLevelsText : Text := "$\x7ba\x7d-\x7b$\x7bj\x7d".toList

/-- The last of the ten rounds is needed, and it is enough. -/
theorem expand_of_nestsWithin_tenLevels :
    ¬ tenLevels.NestsWithin 9 tenLevelsText ∧
      tenLevels.ExpandsTo tenLevelsText
        "1\x7d$\x7bk\x7d1\x7d$\x7bk\x7d-\x7b1\x7d$\x7bk\x7d".toList ∧
      tenLevels.expand (tenLevels.expand tenLevelsText) = tenLevels.expand tenLevelsText := by
  have text : Templated tenLevelsText := by decide +kernel
  have values : tenLevels.TemplatedValues := templatedValues_iff.mpr (by decide +kernel)
  have nests : tenLevels.NestsWithin 10 tenLevelsText :=
    (nestsWithin_iff text values 10).mpr (by decide +kernel)
  obtain ⟨full, again⟩ := expand_of_nestsWithin text values nests
  refine ⟨?_, (full _).mpr (by decide +kernel), again⟩
  rw [nestsWithin_iff text values]
  decide +kernel

end Bindings

end ConfigTree.Maven
