import ConfigTree.Proofs.Yaml.Stopping
import ConfigTree.Proofs.Yaml.Adequacy

/-!
# What readers see ahead

At the end of a value a reader looks at the next token: at the blanks and comments in front of
it, at the column it stands at and at its first word. Cursors that agree in these lead to the
same decisions.
-/

namespace ConfigTree.Yaml

/-- What a value that opens no block collection needs of the text `rest'` behind it to end where it
ends in front of `rest`, and to be a key in both places or in neither. -/
structure StopsAlike (rest rest' : Text) : Prop extends EndsAlike false rest rest' where
  keyFollows : keyFollows rest' = keyFollows rest
  scanBlockScalar {floor : Nat} {text : Text} :
    scanBlockScalar floor (text ++ rest) = (text, rest) →
      scanBlockScalar floor (text ++ rest') = (text, rest')

/-- What a reader that has come to the end of a value sees of the text ahead: two texts look alike
if they are the same, or show the same word after the same blanks and comments. -/
inductive Ahead (mayOpen : Bool) : Text → Text → Prop where
  | same (t : Text) : Ahead mayOpen t t
  | word {lead word rest rest' : Text}
      (token : trivia mayOpen false (lead ++ (word ++ rest)) = (lead, word ++ rest))
      (solid : ∃ c ∈ word, isWhiteSpace c = false) (closed : blankOrEnd rest = true)
      (closed' : blankOrEnd rest' = true) :
      Ahead mayOpen (lead ++ (word ++ rest)) (lead ++ (word ++ rest'))

theorem ne_nil_of_solid {word : Text} (h : ∃ c ∈ word, isWhiteSpace c = false) : word ≠ [] := by
  obtain ⟨c, inside, -⟩ := h
  exact List.ne_nil_of_mem inside

theorem notInlineBlank_of_solid {lead word : Text} (h : ∃ c ∈ word, isWhiteSpace c = false) :
    ∃ c ∈ lead ++ word, isInlineBlank c = false := by
  obtain ⟨c, inside, solid⟩ := h
  refine ⟨c, List.mem_append_right _ inside, eq_false_of_ne_true fun blank => ?_⟩
  rw [isWhiteSpace_of_isBlank (isBlank_of_isInlineBlank blank)] at solid
  contradiction

namespace Ahead

variable {mayOpen : Bool} {t t' : Text}

theorem head (h : Ahead mayOpen t t') : t'.head? = t.head? := by
  cases h with
  | same => rfl
  | word token solid closed closed' =>
    rw [← List.append_assoc, ← List.append_assoc]
    exact head_append (List.append_ne_nil_of_right_ne_nil _ (ne_nil_of_solid solid)) _ _

theorem keyFollows (h : Ahead mayOpen t t') : keyFollows t' = keyFollows t := by
  cases h with
  | same => rfl
  | @word lead word rest rest' token solid closed closed' =>
    obtain ⟨blanks, d, after, whole, all, notBlank⟩ :=
      exists_inlineBlanks (notInlineBlank_of_solid solid)
    rw [← List.append_assoc, ← List.append_assoc, whole, List.append_assoc, List.append_assoc,
      List.cons_append, List.cons_append, keyFollows_inlineBlanks all notBlank,
      keyFollows_inlineBlanks all notBlank]
    cases after with
    | nil => rw [List.nil_append, List.nil_append, closed, closed']
    | cons e after => rfl

theorem endsAlike {inFlow : Bool} (h : Ahead mayOpen t t') : EndsAlike inFlow t t' := by
  refine ⟨h.head, ?_⟩
  cases h with
  | same => exact id
  | @word lead word rest rest' token solid closed closed' =>
    obtain ⟨blanks, d, after, whole, all, notBlank⟩ :=
      exists_inlineBlanks (notInlineBlank_of_solid solid)
    rw [← List.append_assoc, ← List.append_assoc, whole, List.append_assoc, List.append_assoc,
      List.cons_append, List.cons_append, plainStops_inlineBlanks all notBlank,
      plainStops_inlineBlanks all notBlank, plainRun_cons_eq_nil, plainRun_cons_eq_nil]
    cases after with
    | nil => simp [colonEnds_of_blankOrEnd closed, colonEnds_of_blankOrEnd closed']
    | cons e after => exact id

/-- A literal or folded scalar ends where it ends in front of a text that looks alike. -/
theorem scanBlockScalar {floor : Nat} {text : Text} (h : Ahead mayOpen t t')
    (scanned : scanBlockScalar floor (text ++ t) = (text, t)) :
    Yaml.scanBlockScalar floor (text ++ t') = (text, t') := by
  cases h with
  | same => exact scanned
  | @word lead word rest rest' token solid closed closed' =>
    rw [scanBlockScalar_eq_iff] at scanned ⊢
    refine ⟨scanned.1, .inr ?_⟩
    obtain ⟨c, word, rfl⟩ := List.exists_cons_of_ne_nil (ne_nil_of_solid solid)
    obtain ends | ⟨u, ends, content⟩ := scanned.2
    · simp at ends
    · cases lead with
      | nil =>
        have starts := (trivia_cons_eq_nil.mp token).1
        rw [List.nil_append, List.cons_append] at ends
        rw [(List.cons.inj ends).1] at starts
        contradiction
      | cons d lead =>
        obtain ⟨rfl, rfl⟩ := List.cons.inj ends
        refine ⟨_, rfl, ?_⟩
        obtain ⟨e, inside, notBlank⟩ := solid
        have solid : ∃ e ∈ lead ++ (c :: word), isWhiteSpace e = false :=
          ⟨e, List.mem_append_right _ inside, notBlank⟩
        have content : contentEnds floor (lead ++ (c :: word) ++ rest) := by
          rwa [List.append_assoc]
        rw [List.append_eq, ← List.append_assoc]
        exact contentEnds_append solid closed closed' content

theorem stopsAlike (h : Ahead mayOpen t t') : StopsAlike t t' :=
  ⟨h.endsAlike, h.keyFollows, h.scanBlockScalar⟩

/-- The same blanks and comments come first, and then the same word. -/
theorem trivia (h : Ahead mayOpen t t') :
    (trivia mayOpen false t').1 = (trivia mayOpen false t).1 ∧
      firstWord (Yaml.trivia mayOpen false t').2 = firstWord (Yaml.trivia mayOpen false t).2 := by
  cases h with
  | same => exact ⟨rfl, rfl⟩
  | @word lead word rest rest' token solid closed closed' =>
    have nonempty := ne_nil_of_solid solid
    have token' : Yaml.trivia mayOpen false (lead ++ (word ++ rest')) = (lead, word ++ rest') := by
      refine trivia_append_of token (List.append_ne_nil_of_left_ne_nil nonempty _) ?_
      have starts := trivia_of_rest mayOpen false (lead ++ (word ++ rest))
      rw [token] at starts
      exact trivia_of_head (head_append nonempty _ _) starts
    rw [token, token']
    exact ⟨rfl, by rw [firstWord_append _ closed, firstWord_append _ closed']⟩

end Ahead

/-- The two cursors remember the same of what came before. -/
structure Cursor.Aligned (cur cur' : Cursor) : Prop where
  column : cur'.column = cur.column
  mayOpen : cur'.commentMayOpen = cur.commentMayOpen

/-- The two tokens stand at the same place behind the same blanks and comments. -/
structure Token.Aligned (tok tok' : Token) : Prop where
  lead : tok'.lead = tok.lead
  here : tok.here.Aligned tok'.here

/-- How the place where an edited value ends compares with the place where it ended before: columns
differ only where the line ends. -/
structure Cursor.Meets (cur cur' : Cursor) : Prop where
  mayOpen : cur'.commentMayOpen = cur.commentMayOpen
  column : cur'.column = cur.column ∨ cur.token.onNewLine = true ∨ cur.token.atEnd = true

/-- The two cursors are at the ends of values that meet, and what is ahead looks alike. -/
structure Cursor.Resumes (cur cur' : Cursor) : Prop extends cur.Meets cur' where
  ahead : Ahead cur.commentMayOpen cur.rest cur'.rest

theorem columnAfter_of_mem {t : Text} (h : '\n' ∈ t) (column column' : Nat) :
    columnAfter column t = columnAfter column' t := by
  induction t generalizing column column' with
  | nil => contradiction
  | cons c t ih =>
    rw [columnAfter, columnAfter]
    by_cases lineFeed : c = '\n'
    · rw [if_pos lineFeed, if_pos lineFeed]
    · refine ih ?_ _ _
      rcases List.mem_cons.mp h with rfl | inside
      · contradiction
      · exact inside

/-- A token begins with a character that is no blank, unless the text ends. -/
theorem Cursor.token_atEnd_iff (cur : Cursor) :
    cur.token.atEnd = true ↔ firstWord cur.token.here.rest = [] := by
  have starts := trivia_of_rest cur.commentMayOpen false cur.rest
  rw [Token.atEnd, List.isEmpty_iff, firstWord_eq_nil]
  show (trivia cur.commentMayOpen false cur.rest).2 = [] ↔
    blankOrEnd (trivia cur.commentMayOpen false cur.rest).2 = true
  cases rest : (trivia cur.commentMayOpen false cur.rest).2 with
  | nil => simp [blankOrEnd]
  | cons c cs =>
    rw [rest] at starts
    simp [blankOrEnd, (trivia_cons_eq_nil.mp starts).1]

namespace Cursor.Resumes

variable {cur cur' : Cursor}

theorem lead (h : cur.Resumes cur') : cur'.token.lead = cur.token.lead := by
  unfold Cursor.token
  rw [h.mayOpen]
  exact h.ahead.trivia.1

theorem firstWord (h : cur.Resumes cur') :
    firstWord cur'.token.here.rest = firstWord cur.token.here.rest := by
  unfold Cursor.token
  rw [h.mayOpen]
  exact h.ahead.trivia.2

theorem atEnd (h : cur.Resumes cur') : cur'.token.atEnd = cur.token.atEnd := by
  rw [Bool.eq_iff_iff, Cursor.token_atEnd_iff, Cursor.token_atEnd_iff, h.firstWord]

theorem onNewLine (h : cur.Resumes cur') : cur'.token.onNewLine = cur.token.onNewLine := by
  unfold Token.onNewLine
  rw [h.lead]

/-- The next tokens are aligned, if there are any. -/
theorem aligned (h : cur.Resumes cur') (more : cur.token.atEnd = false) :
    cur.token.Aligned cur'.token := by
  refine ⟨h.lead, ?_, ?_⟩
  · show columnAfter cur'.column cur'.token.lead = columnAfter cur.column cur.token.lead
    rw [h.lead]
    rcases h.column with same | newLine | ends
    · rw [same]
    · exact columnAfter_of_mem (List.contains_iff_mem.mp newLine) _ _
    · rw [more] at ends
      contradiction
  · show openAfter cur'.commentMayOpen cur'.token.lead = openAfter cur.commentMayOpen cur.token.lead
    rw [h.lead, h.mayOpen]

theorem atDocumentStart (h : cur.Resumes cur') :
    cur'.token.atDocumentStart = cur.token.atDocumentStart := by
  unfold Token.atDocumentStart
  rw [opensDocument_of_firstWord h.firstWord]
  cases more : cur.token.atEnd with
  | false => rw [Token.column, Token.column, (h.aligned more).here.column]
  | true => simp [Token.rest_eq_nil more, opensDocument]

theorem atDocumentEnd (h : cur.Resumes cur') :
    cur'.token.atDocumentEnd = cur.token.atDocumentEnd := by
  unfold Token.atDocumentEnd
  rw [closesDocument_of_firstWord h.firstWord]
  cases more : cur.token.atEnd with
  | false => rw [Token.column, Token.column, (h.aligned more).here.column]
  | true => simp [Token.rest_eq_nil more, closesDocument]

theorem endsDocument (h : cur.Resumes cur') :
    cur'.token.endsDocument = cur.token.endsDocument := by
  unfold Token.endsDocument Token.atMarker
  rw [h.atEnd, h.atDocumentStart, h.atDocumentEnd]

theorem opensItem (h : cur.Resumes cur') :
    opensItem cur'.token.here.rest = opensItem cur.token.here.rest :=
  opensItem_of_firstWord h.firstWord

theorem atEnd_of_endsDocument (h : cur.token.endsDocument = false) : cur.token.atEnd = false :=
  (Bool.or_eq_false_iff.mp h).1

theorem column_token (h : cur.Resumes cur') (more : cur.token.endsDocument = false) :
    cur'.token.column = cur.token.column :=
  (h.aligned (atEnd_of_endsDocument more)).here.column

theorem nextEntry_eq_none {column : Nat} (h : cur.Resumes cur')
    (next : nextEntry column cur = .ok none) : nextEntry column cur' = .ok none := by
  rw [Yaml.nextEntry_eq_none, h.endsDocument, h.onNewLine, h.opensItem] at *
  cases more : cur.token.endsDocument with
  | true => exact .inl rfl
  | false =>
    rw [more] at next
    rwa [h.column_token more]

theorem nextEntry_eq_some {column : Nat} (h : cur.Resumes cur')
    (next : nextEntry column cur = .ok (some cur.token)) :
    nextEntry column cur' = .ok (some cur'.token) := by
  rw [Yaml.nextEntry_eq_some] at next ⊢
  obtain ⟨-, more, next⟩ := next
  rw [h.endsDocument, h.onNewLine, h.opensItem, h.column_token more]
  exact ⟨rfl, more, next⟩

theorem nextItem_eq_none {column : Nat} (h : cur.Resumes cur')
    (next : nextItem column cur = .ok none) : nextItem column cur' = .ok none := by
  rw [Yaml.nextItem_eq_none, h.endsDocument, h.opensItem] at *
  cases more : cur.token.endsDocument with
  | true => exact .inl rfl
  | false =>
    rw [more] at next
    rwa [h.column_token more]

theorem nextItem_eq_some {column : Nat} (h : cur.Resumes cur')
    (next : nextItem column cur = .ok (some cur.token)) :
    nextItem column cur' = .ok (some cur'.token) := by
  rw [Yaml.nextItem_eq_some] at next ⊢
  obtain ⟨-, more, next⟩ := next
  rw [h.endsDocument, h.opensItem, h.column_token more]
  exact ⟨rfl, more, next⟩

end Cursor.Resumes

end ConfigTree.Yaml
