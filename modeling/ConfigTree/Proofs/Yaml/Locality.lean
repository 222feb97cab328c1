import ConfigTree.Proofs.Yaml.Lookahead

/-!
# Reading does not depend on what follows

A flow collection is read alike wherever its text stands at the same place: its brackets keep
the readers inside from seeing what follows. Scalars are read alike in front of texts that
end them alike.
-/

namespace ConfigTree.Yaml

theorem Cursor.Takes.split {cur last : Cursor} {s t : Text} (h : cur.Takes (s ++ t) last) :
    ∃ mid, cur.Takes s mid ∧ mid.Takes t last := by
  refine ⟨cur.past s (t ++ last.rest), .past ?_, rfl, ?_⟩
  · rw [h.rest_eq, List.append_assoc]
  · rw [Cursor.past_past]
    exact h.2

theorem head_append_left {s : Text} (nonempty : s ≠ []) (t : Text) : s.head? = (s ++ t).head? := by
  rw [← head_append nonempty [] t, List.append_nil]

/-- The text begins with the trivia in front of the token and goes on with something significant. -/
def Token.Begins (tok : Token) (t : Text) : Prop :=
  ∃ rest, t = tok.lead ++ rest ∧ rest ≠ [] ∧ trivia tok.here.commentMayOpen false rest = ([], rest)

theorem Token.Begins.append {tok : Token} {t : Text} (h : tok.Begins t) (u : Text) :
    tok.Begins (t ++ u) := by
  obtain ⟨rest, rfl, nonempty, starts⟩ := h
  exact ⟨rest ++ u, List.append_assoc _ _ _, List.append_ne_nil_of_left_ne_nil nonempty u,
    trivia_of_head (head_append_left nonempty u) starts⟩

/-- What is taken begins so if it reaches beyond the lead of the token. -/
theorem Cursor.Takes.begins {cur last : Cursor} {t : Text} (h : cur.Takes t last)
    (inside : last.rest.length < cur.token.here.rest.length) : cur.token.Begins t := by
  have starts : trivia cur.token.here.commentMayOpen false cur.token.here.rest =
      ([], cur.token.here.rest) := trivia_of_rest cur.commentMayOpen false cur.rest
  have atToken := cur.takes_token.rest_eq
  rw [h.rest_eq] at atToken
  obtain ⟨rest, rfl, here⟩ | ⟨rest, -, ends⟩ := List.append_eq_append_iff.mp atToken.symm
  · have nonempty : rest ≠ [] := by
      rintro rfl
      rw [here, List.nil_append] at inside
      exact absurd inside (Nat.lt_irrefl _)
    rw [here] at starts
    exact ⟨rest, rfl, nonempty, trivia_of_head (head_append_left nonempty last.rest).symm starts⟩
  · rw [ends, List.length_append] at inside
    omega

/-- Where a text leads is determined by the text and by what is left. -/
theorem Cursor.Takes.unique {cur last last' : Cursor} {s : Text} (h : cur.Takes s last)
    (h' : cur.Takes s last') : last = last' := by
  have same : last.rest = last'.rest := List.append_cancel_left (h.rest_eq.symm.trans h'.rest_eq)
  rw [h.2, h'.2, same]

namespace Cursor.Aligned

variable {cur cur' last last' : Cursor}

theorem past (h : cur.Aligned cur') (t rest rest' : Text) :
    (cur.past t rest).Aligned (cur'.past t rest') :=
  ⟨by rw [Cursor.past, Cursor.past, h.column], by rw [Cursor.past, Cursor.past, h.mayOpen]⟩

/-- The same text leads to aligned cursors. -/
theorem takes {t : Text} (h : cur.Aligned cur') (taken : cur.Takes t last)
    (taken' : cur'.Takes t last') : last.Aligned last' := by
  rw [taken.2, taken'.2]
  exact h.past t _ _

/-- The tokens ahead are aligned where both texts begin with the same trivia. -/
theorem token_of_begins {t : Text} (h : cur.Aligned cur') (more : cur.token.here.rest ≠ [])
    (begins : cur.token.Begins t) (taken' : cur'.Takes t last') : cur.token.Aligned cur'.token := by
  obtain ⟨rest, rfl, nonempty, starts⟩ := begins
  have text' : cur'.rest = cur.token.lead ++ (rest ++ last'.rest) := by
    rw [taken'.rest_eq, List.append_assoc]
  have starts' := trivia_of_head (head_append_left nonempty last'.rest) starts
  have found' : trivia cur'.commentMayOpen false cur'.rest =
      (cur.token.lead, rest ++ last'.rest) := by
    rw [text', h.mayOpen]
    exact trivia_append_of cur.trivia_token more starts'
  have token' : cur'.token = ⟨cur.token.lead, cur'.past cur.token.lead (rest ++ last'.rest)⟩ := by
    unfold Cursor.token at found' ⊢
    rw [found']
  rw [token']
  exact ⟨rfl, h.takes cur.takes_token (.past text')⟩

/-- The tokens ahead are aligned, and begin alike, where the same text is taken from both cursors
and reaches beyond the lead of the token. -/
theorem token {t : Text} (h : cur.Aligned cur') (taken : cur.Takes t last)
    (taken' : cur'.Takes t last') (inside : last.rest.length < cur.token.here.rest.length) :
    cur.token.Aligned cur'.token ∧
      cur'.token.here.rest.head? = cur.token.here.rest.head? := by
  have more : cur.token.here.rest ≠ [] := List.ne_nil_of_length_pos (Nat.zero_lt_of_lt inside)
  have begins := taken.begins inside
  have aligned := h.token_of_begins more begins taken'
  refine ⟨aligned, ?_⟩
  obtain ⟨rest, rfl, nonempty, -⟩ := begins
  have here := taken.rest_eq
  have here' := taken'.rest_eq
  rw [cur.takes_token.rest_eq, List.append_assoc, List.append_cancel_left_eq] at here
  rw [cur'.takes_token.rest_eq, aligned.lead, List.append_assoc, List.append_cancel_left_eq]
    at here'
  rw [here, here']
  exact head_append nonempty _ _

end Cursor.Aligned

theorem Cursor.Aligned.token_of_token {cur cur' here here' : Cursor} {lead lead' : Text}
    (h : here.Aligned here') (found : cur.token = ⟨lead, here⟩)
    (found' : cur'.token = ⟨lead', here'⟩) :
    here.token.Aligned here'.token := by
  rw [Cursor.token_of_token found, Cursor.token_of_token found']
  exact ⟨rfl, h⟩

theorem Cursor.Takes.behindLead {cur last : Cursor} {t : Text}
    (h : cur.Takes (cur.token.lead ++ t) last) : cur.token.here.Takes t last := by
  obtain ⟨mid, before, after⟩ := h.split
  obtain rfl := before.unique cur.takes_token
  exact after

namespace Token.Aligned

variable {tok tok' : Token}

theorem column (h : tok.Aligned tok') : tok'.column = tok.column := h.here.column

theorem onNewLine (h : tok.Aligned tok') : tok'.onNewLine = tok.onNewLine := by
  rw [Token.onNewLine, Token.onNewLine, h.lead]

end Token.Aligned

/-- A text taken behind an aligned token. -/
theorem Token.Aligned.split {cur cur' here last' : Cursor} {lead t : Text}
    (h : cur.token.Aligned cur'.token) (found : cur.token = ⟨lead, here⟩)
    (taken' : cur'.Takes (lead ++ t) last') :
    ∃ here', cur'.token = ⟨lead, here'⟩ ∧ here.Aligned here' ∧ here'.Takes t last' := by
  have lead' : cur'.token.lead = lead := h.lead.trans (congrArg Token.lead found)
  have here : cur.token.here = here := congrArg Token.here found
  subst lead'
  exact ⟨cur'.token.here, rfl, here ▸ h.here, taken'.behindLead⟩

theorem Cursor.Takes.cons {cur last : Cursor} {c : Char} {t : Text}
    (h : cur.Takes ([c] ++ t) last) :
    ∃ rest, cur.rest = c :: rest ∧ (cur.past [c] rest).Takes t last := by
  refine ⟨t ++ last.rest, h.rest_eq, rfl, ?_⟩
  rw [Cursor.past_past]
  exact h.2

/-- A scalar is read alike at an aligned token in front of a text that ends it alike. -/
theorem readScalar_aligned {inFlow : Bool} {tok tok' : Token} {s : Scalar} {last last' : Cursor}
    (read : readScalar inFlow tok = .ok (s.unnumbered, last)) (aligned : tok.Aligned tok')
    (taken' : tok'.here.Takes s.written last') (alike : EndsAlike inFlow last.rest last'.rest) :
    readScalar inFlow tok' = .ok (s.unnumbered, last') := by
  obtain ⟨taken, nonempty, -, -⟩ := readScalar_takes read
  obtain ⟨known, style, text, rest, scanned, solid, fresh, position⟩ := readScalar_eq_ok.mp read
  have atRest : last.rest = rest := by rw [position]; rfl
  have written : (Scalar.fresh tok.lead style text).written = s.written :=
    (congrArg Scalar.written fresh).symm
  have again := scanScalar_append_of tok.lead scanned solid (atRest ▸ alike)
  rw [written, ← taken'.rest_eq] at again
  refine readScalar_eq_ok.mpr ⟨?_, style, text, last'.rest, again, solid, ?_, taken'.2⟩
  · rw [taken.rest_eq] at known
    rw [taken'.rest_eq]
    refine unsupported_append_of nonempty ?_ known
    rw [blankOrEnd_of_head alike.head]
    exact id
  · rw [fresh, aligned.lead]

/-- Inside a flow collection a scalar is followed by a separator or bracket of the collection. -/
theorem endsAlike_of_flowIndicator {common : Text} (h : ∃ c ∈ common, isFlowIndicator c = true)
    (rest rest' : Text) : EndsAlike true (common ++ rest) (common ++ rest') := by
  refine ⟨?_, plainStops_of_flowIndicator h rest rest'⟩
  obtain ⟨c, inside, -⟩ := h
  exact head_append (List.ne_nil_of_mem inside) _ _

/-- A key of a block mapping is read alike if a blank follows it in both texts. -/
theorem readKey_aligned (tok' : Token) {tok : Token} {key : Scalar} {gap : Text}
    {last last' : Cursor}
    (read : readKey tok = .ok ((key.unnumbered, gap), last))
    (taken' : tok'.here.Takes (key.written ++ gap ++ [':']) last')
    (closed : blankOrEnd last'.rest = true) :
    readKey tok' = .ok ((key.unnumbered, gap), last') := by
  obtain ⟨taken, nonempty, -, -⟩ := readKey_takes read
  obtain ⟨known, rest, scanned, fresh, position⟩ := readKey_eq_ok.mp read
  have atRest : last.rest = rest := by rw [position]; rfl
  have again := scanKey_append_of [] scanned closed
  have written : (Scalar.fresh [] key.unnumbered.style key.unnumbered.text).written = key.written :=
    (congrArg Scalar.written fresh).symm
  have text' : tok'.here.rest = key.written ++ (gap ++ ':' :: last'.rest) := by
    rw [taken'.rest_eq]
    simp
  rw [written, ← text'] at again
  refine readKey_eq_ok.mpr ⟨?_, last'.rest, again, fresh, taken'.2⟩
  have closed₀ : blankOrEnd last.rest = true := by
    rw [atRest]
    exact (scanKey_eq_some.mp scanned).2.2.2.2
  rw [taken.rest_eq] at known
  rw [taken'.rest_eq]
  exact unsupported_append_of (List.append_ne_nil_of_right_ne_nil _ (List.cons_ne_nil _ _))
    (fun _ => closed₀) known

/-- A key of a flow mapping is read alike if the mapping goes on alike up to one of its
separators. -/
theorem readFlowKey_aligned {here here' : Cursor} {key : Scalar} {gap : Text} {last last' : Cursor}
    (read : readFlowKey here = .ok ((key.unnumbered, gap), last)) (aligned : here.Aligned here')
    (taken' : here'.Takes (key.written ++ gap ++ [':']) last') {common rest rest' : Text}
    (text : last.rest = common ++ rest) (text' : last'.rest = common ++ rest')
    (indicator : ∃ c ∈ common, isFlowIndicator c = true) :
    readFlowKey here' = .ok ((key.unnumbered, gap), last') := by
  obtain ⟨mid, after, scalarRead, cut, position⟩ := readFlowKey_eq_ok.mp read
  obtain ⟨atColon, inline⟩ := eq_append_of_span cut
  have atRest : last.rest = after := by rw [position]; rfl
  rw [List.append_assoc] at taken'
  obtain ⟨mid', scalarTaken, colonTaken⟩ := taken'.split
  have atColon' : mid'.rest = gap ++ ':' :: last'.rest := by
    rw [colonTaken.rest_eq]
    simp
  have alike : EndsAlike true mid.rest mid'.rest := by
    have common : ∃ c ∈ gap ++ ':' :: common, isFlowIndicator c = true := by
      obtain ⟨c, inside, indicator⟩ := indicator
      exact ⟨c, List.mem_append_right _ (List.mem_cons_of_mem _ inside), indicator⟩
    have alike := endsAlike_of_flowIndicator common rest rest'
    rw [atColon, atColon', ← atRest, text, text']
    simpa using alike
  have atKey : Token.Aligned ⟨[], here⟩ ⟨[], here'⟩ := ⟨rfl, aligned⟩
  have scalarRead' := readScalar_aligned scalarRead atKey scalarTaken alike
  refine readFlowKey_eq_ok.mpr ⟨mid', last'.rest, scalarRead', ?_, colonTaken.2⟩
  rw [atColon', span_inlineBlanks inline rfl]

/-! ## Flow collections -/

theorem readComma_eq_ok {closing : Char} {cur last : Cursor} {comma : Option Text} :
    readComma closing cur = .ok (comma, last) ↔
      (∃ rest, cur.token.here.rest = ',' :: rest ∧ comma = some cur.token.lead ∧
        last = cur.token.here.past [','] rest) ∨
      closing ≠ ',' ∧ cur.token.here.rest.head? = some closing ∧ comma = none ∧ last = cur := by
  unfold readComma fail
  split
  rename_i lead here token
  rw [token]
  cases here.rest <;> grind

theorem ReadsFlowItems.length_lt {cur last : Cursor} {items : List Item} {closing : Text}
    (h : ReadsFlowItems cur items closing last) :
    last.rest.length < cur.token.here.rest.length := by
  cases h with
  | close token closing =>
    rw [token, closing]
    exact Nat.lt_succ_self _
  | item token _ valueRead commaRead others =>
    have value := valueRead.length_lt
    rw [Cursor.token_of_token token] at value
    have comma := (readComma_takes commaRead).length_le
    have rest := others.takes.length_le
    rw [token]
    dsimp only at value ⊢
    omega

theorem ReadsFlowEntries.length_lt {cur last : Cursor} {entries : List Entry} {closing : Text}
    (h : ReadsFlowEntries cur entries closing last) :
    last.rest.length < cur.token.here.rest.length := by
  cases h with
  | close token closing =>
    rw [token, closing]
    exact Nat.lt_succ_self _
  | entry token _ keyRead valueRead commaRead others =>
    have key := readFlowKey_length_lt keyRead
    have value := valueRead.takes.length_le
    have comma := (readComma_takes commaRead).length_le
    have rest := others.takes.length_le
    rw [token]
    dsimp only
    omega

/-- A comma, or none before the closing bracket, is read alike where the rest of the
collection is. -/
theorem readComma_aligned {closing : Char} {mid mid' next last next' last' : Cursor}
    {comma : Option Text} {others : Text} (read : readComma closing mid = .ok (comma, next))
    (aligned : mid.Aligned mid') (taken : next.Takes others last)
    (more : last.rest.length < next.token.here.rest.length)
    (taken' : mid'.Takes (commaText comma) next') (othersTaken : next'.Takes others last') :
    readComma closing mid' = .ok (comma, next') ∧
      mid'.token.here.rest.head? = mid.token.here.rest.head? := by
  have inside : last.rest.length < mid.token.here.rest.length := by
    rcases readComma_eq_ok.mp read with ⟨rest, here, -, rfl⟩ | ⟨-, -, -, rfl⟩
    · have := taken.length_le
      rw [here]
      exact Nat.lt_succ_of_le this
    · exact more
  obtain ⟨token, head⟩ :=
    aligned.token ((readComma_takes read).trans taken) (taken'.trans othersTaken) inside
  refine ⟨readComma_eq_ok.mpr ?_, head⟩
  rcases readComma_eq_ok.mp read with ⟨rest, here, rfl, -⟩ | ⟨notComma, here, rfl, -⟩
  · rw [here] at head
    obtain ⟨rest', here'⟩ := List.head?_eq_some_iff.mp head
    have atComma : mid'.Takes (mid.token.lead ++ [',']) (mid'.token.here.past [','] rest') := by
      rw [← token.lead]
      exact mid'.takes_token.trans (.past here')
    exact .inl ⟨rest', here', by rw [token.lead], taken'.unique atComma⟩
  · refine .inr ⟨notComma, by rw [head, here], rfl, ?_⟩
    exact (taken'.unique (.refl mid'))

/-- Inside a flow collection the text up to its end has one of its indicators in it. -/
theorem endsAlike_of_takes {cur cur' last last' : Cursor} {t : Text} (taken : cur.Takes t last)
    (taken' : cur'.Takes t last') (indicator : ∃ c ∈ t, isFlowIndicator c = true) :
    EndsAlike true cur.rest cur'.rest := by
  rw [taken.rest_eq, taken'.rest_eq]
  exact endsAlike_of_flowIndicator indicator _ _

mutual

/-- A value of a flow collection is read alike at an aligned token. A scalar needs a text behind it
that ends it alike; brackets end a collection by themselves. -/
theorem ReadsFlowValue.aligned {cur cur' last last' : Cursor} {v : Value}
    (token : cur.token.Aligned cur'.token) (taken' : cur'.Takes v.print last')
    (alike : v.asScalar.isSome → EndsAlike true last.rest last'.rest) :
    ReadsFlowValue cur v last → ReadsFlowValue cur' v last'
  | .sequence found opening inner => by
    rw [Value.print_flow_sequence, List.append_assoc] at taken'
    obtain ⟨here', found', here, taken'⟩ := token.split found taken'
    obtain ⟨rest', opening', inside⟩ := taken'.cons
    exact .sequence found' opening' (inner.aligned (here.past _ _ _) inside)
  | .mapping found opening inner => by
    rw [Value.print_flow_mapping, List.append_assoc] at taken'
    obtain ⟨here', found', here, taken'⟩ := token.split found taken'
    obtain ⟨rest', opening', inside⟩ := taken'.cons
    exact .mapping found' opening' (inner.aligned (here.past _ _ _) inside)
  | .scalar notSequence notMapping read => by
    obtain ⟨taken, nonempty, lead, unmarked⟩ := readScalar_takes read
    rw [Value.print_scalar unmarked, lead] at taken'
    obtain ⟨here', found', here, taken'⟩ := token.split rfl taken'
    have atToken : cur'.token.here = here' := congrArg Token.here found'
    have head : cur'.token.here.rest.head? = cur.token.here.rest.head? := by
      rw [atToken, taken.rest_eq, taken'.rest_eq]
      exact head_append nonempty _ _
    refine .scalar (head ▸ notSequence) (head ▸ notMapping) ?_
    exact readScalar_aligned read token (atToken ▸ taken') (alike rfl)

theorem ReadsFlowItems.aligned {cur cur' last last' : Cursor} {items : List Item} {closing : Text}
    (aligned : cur.Aligned cur')
    (taken' : cur'.Takes (itemsPrint items ++ (closing ++ [']'])) last') :
    ReadsFlowItems cur items closing last → ReadsFlowItems cur' items closing last'
  | .close found closing => by
    have read := ReadsFlowItems.close found closing
    obtain ⟨token, -⟩ := aligned.token read.takes taken' read.length_lt
    obtain ⟨here', found', here, taken'⟩ := token.split found taken'
    rw [taken'.2]
    exact .close found' taken'.rest_eq
  | .item found notClosing valueRead commaRead others => by
    simp only [itemsPrint_cons, Item.print_flow, List.append_assoc] at taken'
    obtain ⟨_, leadTaken, taken'⟩ := taken'.split
    obtain ⟨mid', valueTaken, taken'⟩ := taken'.split
    obtain ⟨next', commaTaken, othersTaken⟩ := taken'.split
    have inside := valueRead.length_lt
    rw [Cursor.token_of_token found, ← congrArg Token.here found] at inside
    obtain ⟨token, head⟩ := aligned.token ((cur.takes_of_token found).trans valueRead.takes)
      (leadTaken.trans valueTaken) inside
    obtain ⟨here', found', here, valueTaken⟩ := token.split found (leadTaken.trans valueTaken)
    have mid := here.takes valueRead.takes valueTaken
    have next := mid.takes (readComma_takes commaRead) commaTaken
    obtain ⟨commaRead', -⟩ :=
      readComma_aligned commaRead mid others.takes others.length_lt commaTaken othersTaken
    have alike := endsAlike_of_takes ((readComma_takes commaRead).trans others.takes)
      (commaTaken.trans othersTaken) ⟨']', by simp, rfl⟩
    have value' := valueRead.aligned (here.token_of_token found found') valueTaken fun _ => alike
    rw [found, found'] at head
    exact .item found' (head ▸ notClosing) value' commaRead' (others.aligned next othersTaken)

theorem ReadsFlowEntries.aligned {cur cur' last last' : Cursor} {entries : List Entry}
    {closing : Text} (aligned : cur.Aligned cur')
    (taken' : cur'.Takes (entriesPrint entries ++ (closing ++ ['\x7d'])) last') :
    ReadsFlowEntries cur entries closing last → ReadsFlowEntries cur' entries closing last'
  | .close found closing => by
    have read := ReadsFlowEntries.close found closing
    obtain ⟨token, -⟩ := aligned.token read.takes taken' read.length_lt
    obtain ⟨here', found', here, taken'⟩ := token.split found taken'
    rw [taken'.2]
    exact .close found' taken'.rest_eq
  | .entry found notClosing keyRead valueRead commaRead others => by
    obtain ⟨keyTaken₀, -, keyLead, unmarked⟩ := readFlowKey_takes keyRead
    rw [entriesPrint_cons, Entry.print_mk unmarked keyLead] at taken'
    simp only [List.append_assoc] at taken'
    obtain ⟨_, leadTaken, taken'⟩ := taken'.split
    rw [← List.append_assoc, ← List.append_assoc] at taken'
    obtain ⟨afterColon', keyTaken, taken'⟩ := taken'.split
    obtain ⟨mid', valueTaken, taken'⟩ := taken'.split
    obtain ⟨next', commaTaken, othersTaken⟩ := taken'.split
    obtain ⟨token, head⟩ := aligned.token ((cur.takes_of_token found).trans keyTaken₀)
      (leadTaken.trans keyTaken) (by rw [found]; exact readFlowKey_length_lt keyRead)
    obtain ⟨here', found', here, keyTaken⟩ := token.split found (leadTaken.trans keyTaken)
    have afterColon := here.takes keyTaken₀ keyTaken
    have mid := afterColon.takes valueRead.takes valueTaken
    have next := mid.takes (readComma_takes commaRead) commaTaken
    obtain ⟨commaRead', nextHead⟩ :=
      readComma_aligned commaRead mid others.takes others.length_lt commaTaken othersTaken
    have rest := (readComma_takes commaRead).trans others.takes
    have alike := endsAlike_of_takes rest (commaTaken.trans othersTaken) ⟨'\x7d', by simp, rfl⟩
    have keyRead' := readFlowKey_aligned keyRead here keyTaken (valueRead.takes.trans rest).rest_eq
      (valueTaken.trans (commaTaken.trans othersTaken)).rest_eq ⟨'\x7d', by simp, rfl⟩
    have value' := valueRead.aligned afterColon valueTaken alike nextHead
    rw [found, found'] at head
    exact .entry found' (head ▸ notClosing) keyRead' value' commaRead'
      (others.aligned next othersTaken)

theorem ReadsFlowEntryValue.aligned {cur cur' last last' : Cursor} {v : Value}
    (aligned : cur.Aligned cur') (taken' : cur'.Takes v.print last')
    (alike : EndsAlike true last.rest last'.rest)
    (next : last'.token.here.rest.head? = last.token.here.rest.head?) :
    ReadsFlowEntryValue cur v last → ReadsFlowEntryValue cur' v last'
  | .absent empty ends => by
    rw [print_of_empty empty] at taken'
    obtain rfl := taken'.unique (.refl cur')
    exact .absent empty (next ▸ ends)
  | .value notComma notClosing valueRead => by
    obtain ⟨token, head⟩ := aligned.token valueRead.takes taken' valueRead.length_lt
    exact .value (head ▸ notComma) (head ▸ notClosing)
      (valueRead.aligned token taken' fun _ => alike)

end

/-- The same text taken behind aligned tokens: it leads to aligned cursors, and both tokens stand in
front of the significant part of it. -/
theorem Token.Aligned.takes {cur cur' last last' : Cursor} {t : Text}
    (h : cur.token.Aligned cur'.token) (taken : cur.Takes t last) (taken' : cur'.Takes t last')
    (inside : last.rest.length < cur.token.here.rest.length) :
    last.Aligned last' ∧ ∃ significant, significant ≠ [] ∧
      cur.token.here.Takes significant last ∧ cur'.token.here.Takes significant last' := by
  obtain ⟨significant, rfl, nonempty, -⟩ := taken.begins inside
  have here := taken.behindLead
  rw [← h.lead] at taken'
  have here' := taken'.behindLead
  exact ⟨h.here.takes here here', significant, nonempty, here, here'⟩

/-- What the readers find out about a value that opens no block collection before they read it. -/
structure OpensNothing (t : Text) : Prop where
  notItem : opensItem t = false
  notEntry : opensEntry t = false

/-- Whether a scalar is a key shows behind it. -/
theorem notEntry_of_readScalar {tok : Token} {s : Scalar} {last : Cursor}
    (h : readScalar false tok = .ok (s.unnumbered, last))
    (notKey : cannotOpenKey tok.here.rest = true ∨ keyFollows last.rest = false) :
    opensEntry tok.here.rest = false := by
  cases canOpen : cannotOpenKey tok.here.rest with
  | true => exact opensEntry_of_cannotOpenKey canOpen
  | false =>
    obtain ⟨-, style, text, rest, scanned, nonempty, -, rfl⟩ := readScalar_eq_ok.mp h
    rw [opensEntry_of_scanScalar scanned nonempty canOpen]
    rw [canOpen] at notKey
    exact notKey.resolve_left Bool.false_ne_true

theorem keyFollows_of_notEntry {tok : Token} {s : Scalar} {last : Cursor}
    (h : readScalar false tok = .ok (s.unnumbered, last))
    (notEntry : opensEntry tok.here.rest = false) :
    cannotOpenKey tok.here.rest = true ∨ keyFollows last.rest = false := by
  cases canOpen : cannotOpenKey tok.here.rest with
  | true => exact .inl rfl
  | false =>
    obtain ⟨-, style, text, rest, scanned, nonempty, -, rfl⟩ := readScalar_eq_ok.mp h
    rw [opensEntry_of_scanScalar scanned nonempty canOpen] at notEntry
    exact .inr notEntry

theorem readBlockScalar_aligned {style : ScalarStyle} {c : Char} {floor : Nat} {tok tok' : Token}
    {rest : Text} {s : Scalar} {last last' : Cursor} (indicator : isIndicatorOf style c)
    (opening : tok.here.rest = c :: rest)
    (read : readBlockScalar style floor tok rest = (s.unnumbered, last))
    (aligned : tok.Aligned tok') (taken' : tok'.here.Takes s.written last')
    (alike : StopsAlike last.rest last'.rest) :
    ∃ rest', tok'.here.rest = c :: rest' ∧
      readBlockScalar style floor tok' rest' = (s.unnumbered, last') := by
  rw [readBlockScalar_eq] at read
  obtain ⟨fresh, rfl⟩ := Prod.mk.inj read
  have whole := scanBlockScalar_append floor rest
  generalize cut : scanBlockScalar floor rest = found at fresh alike whole
  obtain ⟨text, after⟩ := found
  subst whole
  have written : s.written = c :: text := by
    rw [show s.written = s.unnumbered.written from rfl, ← fresh]
    rcases indicator with ⟨rfl, rfl⟩ | ⟨rfl, rfl⟩ <;> rfl
  have again := alike.scanBlockScalar cut
  have opening' : tok'.here.rest = c :: (text ++ last'.rest) := by
    rw [taken'.rest_eq, written, List.cons_append]
  refine ⟨_, opening', ?_⟩
  rw [readBlockScalar_eq]
  dsimp only at again ⊢
  rw [again, aligned.lead, fresh]
  exact Prod.ext rfl taken'.2.symm

/-- A value that opens no block collection is read alike at an aligned token in front of a text that
stops it alike. -/
theorem ReadsPlainValue.aligned {floor : Nat} {cur cur' last last' : Cursor} {v : Value}
    (h : ReadsPlainValue floor cur v last) (token : cur.token.Aligned cur'.token)
    (taken' : cur'.Takes v.print last') (alike : StopsAlike last.rest last'.rest)
    (opens : OpensNothing cur.token.here.rest) :
    ReadsPlainValue floor cur' v last' ∧ last.Aligned last' ∧
      OpensNothing cur'.token.here.rest := by
  obtain ⟨aligned, significant, nonempty, here, here'⟩ := token.takes h.takes taken' h.length_lt
  have head : cur'.token.here.rest.head? = cur.token.here.rest.head? := by
    rw [here.rest_eq, here'.rest_eq]
    exact head_append nonempty _ _
  have notItem : opensItem cur'.token.here.rest = false := by
    have notItem := opens.notItem
    rw [here.rest_eq] at notItem
    rw [here'.rest_eq]
    refine opensItem_append_of nonempty ?_ notItem
    rw [blankOrEnd_of_head alike.head]
    exact id
  have cannotOpen : cannotOpenKey cur'.token.here.rest = cannotOpenKey cur.token.here.rest :=
    cannotOpenKey_of_head head
  cases h with
  | flow opening valueRead =>
    have bracket : cannotOpenKey cur.token.here.rest = true := by
      rcases opening with opening | opening
      all_goals
        obtain ⟨rest, opening⟩ := List.head?_eq_some_iff.mp opening
        rw [opening]
        rfl
    have notScalar : v.asScalar.isSome → EndsAlike true last.rest last'.rest := by
      intro isScalar
      cases valueRead with
      | scalar notSequence notMapping read =>
          exact absurd opening (by simp [notSequence, notMapping])
      | sequence | mapping => contradiction
    have read' := valueRead.aligned token taken' notScalar
    refine ⟨.flow (head ▸ opening) read', aligned, notItem, ?_⟩
    exact opensEntry_of_cannotOpenKey (cannotOpen.trans bracket)
  | block indicator opening read =>
    obtain ⟨-, -, lead, unmarked⟩ := readBlockScalar_takes indicator opening read
    rw [Value.print_scalar unmarked, lead, ← token.lead] at taken'
    obtain ⟨rest', opening', read'⟩ :=
      readBlockScalar_aligned indicator opening read token taken'.behindLead alike
    refine ⟨.block indicator opening' read', aligned, notItem, ?_⟩
    apply opensEntry_of_cannotOpenKey
    rw [opening']
    rcases indicator with ⟨-, rfl⟩ | ⟨-, rfl⟩ <;> rfl
  | scalar notIndicator read =>
    obtain ⟨-, -, lead, unmarked⟩ := readScalar_takes read
    rw [Value.print_scalar unmarked, lead, ← token.lead] at taken'
    have read' := readScalar_aligned read token taken'.behindLead alike.toEndsAlike
    refine ⟨.scalar (head ▸ notIndicator) read', aligned, notItem, ?_⟩
    apply notEntry_of_readScalar read'
    rw [cannotOpen, alike.keyFollows]
    exact keyFollows_of_notEntry read opens.notEntry

end ConfigTree.Yaml
