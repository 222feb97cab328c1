import ConfigTree.Proofs.Yaml.Following
import ConfigTree.Proofs.Yaml.Forward
import ConfigTree.Proofs.Yaml.Trivia

/-!
# Streams one after another

A text of whole lines and a text that starts a document are read independently of each other: the
stream in both is the stream in the first and then that in the second, and what is wrong with the
second is wrong at the same place behind the first. Reading the first never looks past the marker;
reading goes on at the marker as at the start of a text.
-/

namespace ConfigTree.Yaml

/-- The documents with `lead` in front of the first. -/
def leadDocuments (lead : Text) : List Document → List Document
  | [] => []
  | d :: ds => { d with lead := lead ++ d.lead } :: ds

/-- The documents of one stream and then those of another. What follows the documents of the first
comes in front of those of the second. -/
def Stream.append (s t : Stream) : Stream where
  id := s.id
  documents := s.documents ++ leadDocuments s.trailer t.documents
  trailer := t.trailer

theorem unnumbered_leadDocuments (lead : Text) (ds : List Document) :
    (leadDocuments lead ds).map Document.unnumbered =
      leadDocuments lead (ds.map Document.unnumbered) := by
  cases ds <;> rfl

theorem Stream.unnumbered_append (s t : Stream) :
    (s.append t).unnumbered = s.unnumbered.append t.unnumbered := by
  simp only [Stream.append, Stream.unnumbered, List.map_append, unnumbered_leadDocuments]

/-- How many steps there are does not matter when there are enough. -/
theorem readDocuments_of_enough {steps steps' : Nat} {cur : Cursor}
    (enough : cur.rest.length < steps) (enough' : cur.rest.length < steps') :
    readDocuments steps cur = readDocuments steps' cur := by
  induction steps generalizing steps' cur with
  | zero => contradiction
  | succ steps ih =>
    obtain ⟨steps', rfl⟩ := Nat.exists_eq_add_one.mpr (Nat.zero_lt_of_lt enough')
    rw [readDocuments, readDocuments]
    cases read : readDocument cur with
    | error f => rfl
    | ok found =>
      obtain ⟨d, mid⟩ := found
      simp only [bind, Except.bind]
      cases goesOn : mid.token.atEnd with
      | true => rfl
      | false =>
        have shorter := (readsDocument_of_run read rfl).length_lt goesOn
        rw [ih (by omega) (by omega : mid.rest.length < steps')]

section Behind

variable {next : Text} (marker : opensDocument next = true)

include marker

/-- In front of a document start nothing but the lead tells where the text before it ended. -/
theorem readDocument_behind {cur : Cursor} {lead : Text} (found : cur.token = ⟨lead, .start next⟩) :
    readDocument cur = (readDocument (.start next)).map fun (d, last) =>
      ({ d with lead := lead ++ d.lead }, last) := by
  have opened : (Token.mk lead (.start next)).atDocumentStart = true := marker
  have start := readDocumentStart_eq.mpr (.inl ⟨by rw [found]; exact opened, rfl, rfl⟩)
  have start' := readDocumentStart_eq.mpr
    (.inl ⟨by rw [Cursor.token_start marker]; exact opened, rfl, rfl⟩)
  rw [found] at start
  rw [Cursor.token_start marker] at start'
  unfold readDocument
  rw [start, start']
  dsimp only
  cases readBody _ with
  | error f => rfl
  | ok found =>
    obtain ⟨body, afterBody⟩ := found
    simp only [bind, Except.bind]
    cases readDocumentEnd afterBody with
    | error f => rfl
    | ok found =>
      obtain ⟨⟨tail, marked⟩, last⟩ := found
      simp [Except.map]

theorem readDocuments_behind {cur : Cursor} {lead : Text} (found : cur.token = ⟨lead, .start next⟩)
    {steps : Nat} (enough : cur.rest.length < steps) :
    readDocuments steps cur = (readDocuments (stepBudget next) (.start next)).map
      fun (ds, trailer) => (leadDocuments lead ds, trailer) := by
  obtain ⟨steps, rfl⟩ := Nat.exists_eq_add_one.mpr (Nat.zero_lt_of_lt enough)
  have shorter := cur.length_token_le
  rw [found] at shorter
  dsimp only at shorter
  have sameSteps : readDocuments (stepBudget next) (.start next) =
      readDocuments (steps + 1) (.start next) := by
    apply readDocuments_of_enough
    · simp only [Cursor.rest_start, stepBudget]
      omega
    · omega
  rw [sameSteps, readDocuments, readDocuments, readDocument_behind marker found]
  cases readDocument (.start next) with
  | error f => rfl
  | ok found =>
    obtain ⟨d, mid⟩ := found
    simp only [bind, Except.bind, Except.map]
    cases mid.token.atEnd with
    | true => rfl
    | false =>
      cases readDocuments steps mid with
      | error f => rfl
      | ok others => rfl

/-- The documents in a text of whole lines and in a text that starts a document behind it. -/
theorem ReadsDocuments.append {cur : Cursor} {ds : List Document} {trailer : Text}
    (h : ReadsDocuments cur ds trailer) (lines : cur.WholeLines) (more : cur.token.atEnd = false)
    {steps : Nat} (enough : (cur.followedBy next).rest.length < steps) :
    readDocuments steps (cur.followedBy next) =
      (readDocuments (stepBudget next) (.start next)).map fun (ds', trailer') =>
        (ds.map Document.unnumbered ++ leadDocuments trailer ds', trailer') := by
  induction h generalizing steps with
  | @last cur last d documentRead ends =>
    obtain ⟨steps, rfl⟩ := Nat.exists_eq_add_one.mpr (Nat.zero_lt_of_lt enough)
    have linesBehind := lines.takes documentRead.takes
    have read := documentRead.followedBy marker lines more
    have goesOn := linesBehind.atEnd marker
    have shorter := read.length_lt goesOn
    have others : readDocuments steps (last.followedBy next) = _ :=
      readDocuments_behind marker (linesBehind.token_of_atEnd marker ends) (by omega)
    have lead : (if d.explicitEnd = true then last.token.lead else []) = last.token.lead := by
      cases marked : d.explicitEnd with
      | true => rfl
      | false => exact (documentRead.lead_eq_nil marked).symm
    rw [lead, readDocuments, read.run]
    simp only [bind, Except.bind, goesOn, others]
    cases readDocuments (stepBudget next) (.start next) with
    | error f => rfl
    | ok found => rfl
  | more documentRead goesOn others ih =>
    obtain ⟨steps, rfl⟩ := Nat.exists_eq_add_one.mpr (Nat.zero_lt_of_lt enough)
    have linesBehind := lines.takes documentRead.takes
    have read := documentRead.followedBy marker lines more
    have goesOn' := linesBehind.atEnd marker
    have shorter := read.length_lt goesOn'
    have others : readDocuments steps _ = _ := ih linesBehind goesOn (by omega)
    rw [readDocuments, read.run]
    simp only [bind, Except.bind, goesOn', others]
    cases readDocuments (stepBudget next) (.start next) with
    | error f => rfl
    | ok found => rfl

end Behind

theorem Cursor.wholeLines_start {text : Text} (lineFeed : text.getLast? = some '\n') :
    (Cursor.start text).WholeLines := by
  obtain ⟨s, rfl⟩ := List.getLast?_eq_some_iff.mp lineFeed
  refine ⟨?_, ?_⟩
  · show columnAfter 0 (s ++ ['\n']) = 0
    rw [columnAfter_append]
    rfl
  · show openAfter true (s ++ ['\n']) = true
    rw [openAfter_append]
    rfl

/-- Reading a text that starts a document behind a text of whole lines in which something is
said. -/
theorem readStream_append {first second : Text} {s : Stream} (read : readStream first = .ok s)
    (lineFeed : first.getLast? = some '\n') (significant : isTrivia first = false)
    (marker : opensDocument second = true) :
    readStream (first ++ second) = (readStream second).map s.unnumbered.append := by
  have lines := Cursor.wholeLines_start lineFeed
  have more : (Cursor.start first).token.atEnd = false := by
    apply eq_false_of_ne_true
    intro ends
    rw [isTrivia_of_atEnd ends] at significant
    contradiction
  unfold readStream at read
  obtain ⟨⟨ds, trailer⟩, documentsRead, done⟩ := bind_eq_ok.mp read
  cases done
  have documents := readsDocuments_of_run documentsRead rfl
  have both : readDocuments (stepBudget (first ++ second)) _ = _ :=
    documents.append marker lines more
      (by simp only [Cursor.followedBy, Cursor.rest_start, stepBudget]; omega)
  unfold readStream
  rw [show Cursor.start (first ++ second) = (Cursor.start first).followedBy second from rfl, both]
  cases readDocuments (stepBudget second) (.start second) with
  | error f => rfl
  | ok found => rfl

/-- What is wrong with a text is told at the same column behind whole lines, and as many lines
further down. -/
theorem locate_append {second : Text} {f : Failure} (read : readStream second = .error f)
    (first : Text) :
    f.locate (first ++ second) =
      { f.locate second with line := (f.locate second).line + first.lineFeeds } := by
  have inside := (reaches_of_readStream read).lineFeeds_le
  have both : Text.lineFeeds (first ++ second) = first.lineFeeds + second.lineFeeds :=
    List.count_append
  rw [Cursor.rest_start] at inside
  simp only [Failure.locate, SyntaxError.mk.injEq, true_and, and_true]
  omega

/-- Behind a text of whole lines in which something is said, a text that starts a document is parsed
as it is alone: its documents follow those of the first text, and where it has an error the two have
the same. -/
theorem parse_append {first second rest : Text} {s : Stream} (parsed : parse first = .ok s)
    (lineFeed : first.getLast? = some '\n') (significant : isTrivia first = false)
    (marker : second = '-' :: '-' :: '-' :: rest)
    (blank : ∀ c ∈ rest.head?, c = ' ' ∨ c = '\t' ∨ c = '\n' ∨ c = '\r') :
    (∀ t, parse second = .ok t →
      ∃ u, parse (first ++ second) = .ok u ∧ u.unnumbered = (s.append t).unnumbered) ∧
    (∀ e, parse second = .error e →
      parse (first ++ second) = .error { e with line := e.line + first.lineFeeds }) := by
  have opens : opensDocument second = true := by
    rw [marker]
    cases rest with
    | nil => rfl
    | cons c rest => simpa [opensDocument, blankOrEnd, isBlank, or_assoc] using blank c rfl
  obtain ⟨raw, read, -, same⟩ := unnumbered_of_parse parsed
  have both := readStream_append read lineFeed significant opens
  constructor
  · intro t parsedSecond
    obtain ⟨raw', read', -, same'⟩ := unnumbered_of_parse parsedSecond
    rw [read'] at both
    refine ⟨(raw.unnumbered.append raw').numbered, ?_, ?_⟩
    · unfold parse
      rw [both]
      rfl
    · rw [Stream.unnumbered_numbered, Stream.unnumbered_append, Stream.unnumbered_append,
        Stream.unnumbered_unnumbered, same, same']
  · intro e failed
    unfold parse at failed ⊢
    cases read' : readStream second with
    | ok raw' =>
      rw [read'] at failed
      contradiction
    | error f =>
      rw [read'] at failed both
      cases failed
      rw [both]
      exact congrArg Except.error (locate_append read' first)

/-- A document with an open mapping, an empty value and a literal scalar with blank lines behind
it, closed by a marker and followed by a comment. -/
def closedText : Text := "a:\n  - b:\n  - |\n    kept\n\n...\n# end\n".toList

/-- Two documents, each with its marker. -/
def markedText : Text := ['-', '-', '-', ' ', 'b', '\n', '-', '-', '-', '\n']

/-- A document with an error in its second line. -/
def anchoredText : Text := ['-', '-', '-', '\n', 'b', ':', ' ', '&', 'c', '\n']

theorem parse_append_closedText :
    (∃ s t u, parse closedText = .ok s ∧ s.trailer = "\n# end\n".toList ∧
      parse markedText = .ok t ∧ parse (closedText ++ markedText) = .ok u ∧
      u.unnumbered = (s.append t).unnumbered) ∧
    parse (closedText ++ anchoredText) = .error ⟨.anchorUsed, 9, 4⟩ := by
  obtain ⟨s, parsed, trailer⟩ : ∃ s, parse closedText = .ok s ∧ s.trailer = "\n# end\n".toList :=
    exists_parse (by decide +kernel)
  obtain ⟨t, marked, -⟩ : ∃ t, parse markedText = .ok t ∧ t.documents.length = 2 :=
    exists_parse (by decide +kernel)
  have anchored : parse anchoredText = .error ⟨.anchorUsed, 2, 4⟩ :=
    parse_eq_error (by decide +kernel)
  have lines : closedText.getLast? = some '\n' := by decide +kernel
  have significant : isTrivia closedText = false := by decide +kernel
  obtain ⟨u, both, documents⟩ := (parse_append parsed lines significant rfl (by simp)).1 t marked
  have failed := (parse_append parsed lines significant rfl (by simp)).2 _ anchored
  exact ⟨⟨s, t, u, parsed, trailer, marked, both, documents⟩, failed⟩

end ConfigTree.Yaml
