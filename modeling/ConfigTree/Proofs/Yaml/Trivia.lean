import ConfigTree.Proofs.Yaml.Stopping
import ConfigTree.Proofs.Yaml.Adequacy
import ConfigTree.Yaml.Visit

/-!
# Blanks and comments

What a stream holds beside its keys, its values and its signs is blanks and comments and nothing
else. Every such text was cut off in front of a token, so the first part says what `trivia` takes in
terms of lines, and the second goes over the rules of reading. Gaps before colons are narrower: they
are cut off on one line.
-/

namespace ConfigTree

namespace Text

theorem splitOn_cons {sep : Char} {t piece : Text} {pieces : List Text}
    (h : splitOn sep t = piece :: pieces) (c : Char) :
    splitOn sep (c :: t) =
      if c = sep then [] :: piece :: pieces else (c :: piece) :: pieces := by
  rw [splitOn, h]

end Text

namespace Yaml

/-- Whether a line is empty behind its leading blanks, or a comment. -/
def isTriviaLine (line : Text) : Bool :=
  match line.dropWhile fun c => c == ' ' || c == '\t' || c == '\r' with
  | [] => true
  | c :: _ => c == '#'

/-- Whether a text has nothing but blanks and comments in it. -/
def isTrivia (t : Text) : Bool := (Text.splitOn '\n' t).all isTriviaLine

theorem isTriviaLine_cons_of_blank {c : Char} {line : Text} (blank : isBlank c = true)
    (inLine : c ≠ '\n') : isTriviaLine (c :: line) = isTriviaLine line := by
  have skipped : (c == ' ' || c == '\t' || c == '\r') = true := by
    simpa [isBlank, inLine] using blank
  simp only [isTriviaLine, List.dropWhile_cons, skipped, if_true]

/-- The lines of what `trivia` takes, where the first goes on with an open comment if there is
one. -/
theorem lines_trivia (mayOpen inComment : Bool) (t : Text) :
    ∃ line lines, Text.splitOn '\n' (trivia mayOpen inComment t).1 = line :: lines ∧
      (inComment = false → isTriviaLine line = true) ∧ ∀ l ∈ lines, isTriviaLine l = true := by
  fun_induction trivia mayOpen inComment t with
  | case1 => exact ⟨[], [], rfl, fun _ => rfl, by simp⟩
  | case2 mayOpen c cs taken rest found ih =>
    -- Within a comment every character belongs to its line, and a line feed ends it.
    rw [found] at ih
    obtain ⟨line, lines, split, first, others⟩ := ih
    rw [Text.splitOn_cons split]
    by_cases lineFeed : c = '\n'
    · rw [if_pos lineFeed]
      refine ⟨[], line :: lines, rfl, by simp, ?_⟩
      exact List.forall_mem_cons.mpr ⟨first (by simp [lineFeed]), others⟩
    · rw [if_neg lineFeed]
      exact ⟨c :: line, lines, rfl, by simp, others⟩
  | case3 mayOpen inComment c cs outside blank taken rest found ih =>
    rw [found] at ih
    obtain ⟨line, lines, split, first, others⟩ := ih
    rw [Text.splitOn_cons split]
    by_cases lineFeed : c = '\n'
    · rw [if_pos lineFeed]
      refine ⟨[], line :: lines, rfl, fun _ => rfl, ?_⟩
      exact List.forall_mem_cons.mpr ⟨first rfl, others⟩
    · rw [if_neg lineFeed]
      refine ⟨c :: line, lines, rfl, fun _ => ?_, others⟩
      rw [isTriviaLine_cons_of_blank blank lineFeed, first rfl]
  | case4 mayOpen inComment c cs outside notBlank opens taken rest found ih =>
    rw [found] at ih
    obtain ⟨line, lines, split, -, others⟩ := ih
    obtain ⟨rfl, -⟩ := opens
    rw [Text.splitOn_cons split, if_neg (by decide)]
    exact ⟨'#' :: line, lines, rfl, fun _ => rfl, others⟩
  | case5 => exact ⟨[], [], rfl, fun _ => rfl, by simp⟩

/-- What is skipped in front of a token is trivia. -/
theorem isTrivia_trivia (mayOpen : Bool) (t : Text) :
    isTrivia (trivia mayOpen false t).1 = true := by
  obtain ⟨line, lines, split, first, others⟩ := lines_trivia mayOpen false t
  rw [isTrivia, split, List.all_cons, first rfl, Bool.true_and, List.all_eq_true]
  exact others

theorem isTrivia_nil : isTrivia [] = true := rfl

theorem Cursor.isTrivia_lead (cur : Cursor) : isTrivia cur.token.lead = true := isTrivia_trivia _ _

theorem Cursor.isTrivia_of_token {cur here : Cursor} {lead : Text} (h : cur.token = ⟨lead, here⟩) :
    isTrivia lead = true := by
  have skipped := cur.isTrivia_lead
  rwa [h] at skipped

/-- A text that is skipped to its end is trivia. -/
theorem isTrivia_of_atEnd {text : Text} (h : (Cursor.start text).token.atEnd = true) :
    isTrivia text = true := by
  have whole := (Cursor.start text).lead_append_token
  rw [Token.rest_eq_nil h, List.append_nil] at whole
  rw [← show _ = text from whole]
  exact Cursor.isTrivia_lead _

/-- What a collection style keeps of the text around its brackets. -/
def CollectionStyle.margins : CollectionStyle → List Text
  | .block => []
  | .flow opening closing => [opening, closing]

/-- The texts of a node, those of its children aside, in which nothing is said. -/
def Node.margins : Node → List Text
  | .document d => [d.lead, d.tail]
  | .mapping m => m.style.margins
  | .entry e => e.lead :: e.comma.toList
  | .sequence s => s.style.margins
  | .item i => i.lead :: i.comma.toList
  | .scalar s => [s.lead]

/-- What holds of every node that was read: there is nothing but trivia around its parts, only
spaces and tabs stand before a colon, and no scalar has a mark. -/
structure Node.Clean (n : Node) : Prop where
  margins : ∀ t ∈ n.margins, isTrivia t = true
  gap : ∀ e, n = .entry e → ∀ c ∈ e.gap, c = ' ' ∨ c = '\t'
  unmarked : ∀ s, n = .scalar s → s.mark = none

theorem eq_of_isInlineBlank {c : Char} (h : isInlineBlank c = true) : c = ' ' ∨ c = '\t' := by
  simpa [isInlineBlank] using h

theorem Scalar.clean {s : Scalar} (lead : isTrivia s.lead = true) (unmarked : s.mark = none) :
    (Node.scalar s).Clean := by
  refine ⟨?_, by simp, ?_⟩
  · intro t inside
    rw [List.mem_singleton.mp inside]
    exact lead
  · intro s' same
    rw [← Node.scalar.inj same]
    exact unmarked

theorem Mapping.clean {m : Mapping} (h : ∀ t ∈ m.style.margins, isTrivia t = true) :
    (Node.mapping m).Clean := ⟨h, by simp, by simp⟩

theorem Sequence.clean {s : Sequence} (h : ∀ t ∈ s.style.margins, isTrivia t = true) :
    (Node.sequence s).Clean := ⟨h, by simp, by simp⟩

theorem Item.clean {i : Item} (lead : isTrivia i.lead = true)
    (comma : ∀ t ∈ i.comma, isTrivia t = true) : (Node.item i).Clean := by
  refine ⟨?_, by simp, by simp⟩
  intro t inside
  rcases List.mem_cons.mp inside with rfl | inside
  · exact lead
  · exact comma t (Option.mem_toList.mp inside)

theorem Entry.clean {e : Entry} (lead : isTrivia e.lead = true)
    (gap : ∀ c ∈ e.gap, isInlineBlank c = true) (comma : ∀ t ∈ e.comma, isTrivia t = true) :
    (Node.entry e).Clean := by
  refine ⟨?_, ?_, by simp⟩
  · intro t inside
    rcases List.mem_cons.mp inside with rfl | inside
    · exact lead
    · exact comma t (Option.mem_toList.mp inside)
  · intro e' same c inside
    obtain rfl := Node.entry.inj same
    exact eq_of_isInlineBlank (gap c inside)

theorem clean_of_empty {s : Scalar} (h : s.unnumbered = .fresh [] .plain []) :
    (Node.scalar s).Clean := by
  have lead : s.lead = [] := congrArg Scalar.lead h
  exact Scalar.clean (by rw [lead]; exact isTrivia_nil) (congrArg Scalar.mark h)

theorem margins_flow {opening closing : Text} (first : isTrivia opening = true)
    (last : isTrivia closing = true) :
    ∀ t ∈ (CollectionStyle.flow opening closing).margins, isTrivia t = true := by
  intro t inside
  simp only [CollectionStyle.margins, List.mem_cons, List.not_mem_nil, or_false] at inside
  rcases inside with rfl | rfl
  · exact first
  · exact last

/-! ## Trivia of what is read -/

theorem isTrivia_of_readComma {closing : Char} {cur last : Cursor} {comma : Option Text}
    (h : readComma closing cur = .ok (comma, last)) : ∀ t ∈ comma, isTrivia t = true := by
  intro t inside
  unfold readComma at h
  split at h
  rename_i lead here token
  split at h
  · contradiction
  · split at h
    · cases h
      rw [← Option.mem_some_iff.mp inside]
      exact cur.isTrivia_of_token token
    · split at h
      · cases h
        contradiction
      · contradiction

theorem gap_of_readKey {tok : Token} {key : Scalar} {gap : Text} {last : Cursor}
    (h : readKey tok = .ok ((key, gap), last)) : ∀ c ∈ gap, isInlineBlank c = true := by
  obtain ⟨-, rest, scanned, -, -⟩ := readKey_eq_ok.mp h
  exact (scanKey_eq_some.mp scanned).2.2.2.1

theorem gap_of_readFlowKey {here : Cursor} {key : Scalar} {gap : Text} {last : Cursor}
    (h : readFlowKey here = .ok ((key, gap), last)) : ∀ c ∈ gap, isInlineBlank c = true := by
  obtain ⟨mid, rest, -, cut, -⟩ := readFlowKey_eq_ok.mp h
  exact (eq_append_of_span cut).2

/-- A scalar that was read has the lead of its token. -/
theorem clean_of_readScalar {inFlow : Bool} {cur last : Cursor} {s : Scalar}
    (h : readScalar inFlow cur.token = .ok (s.unnumbered, last)) : (Node.scalar s).Clean := by
  obtain ⟨-, -, lead, unmarked⟩ := readScalar_takes h
  refine Scalar.clean ?_ unmarked
  rw [lead]
  exact cur.isTrivia_lead

/-- Keys have no lead of their own. -/
theorem clean_of_key {key : Scalar} (lead : key.lead = []) (unmarked : key.mark = none) :
    (Node.scalar key).Clean := by
  refine Scalar.clean ?_ unmarked
  rw [lead]
  exact isTrivia_nil

mutual

theorem ReadsFlowValue.clean {cur last : Cursor} {v : Value} :
    ReadsFlowValue cur v last → ∀ n ∈ v.nodes, n.Clean
  | .sequence token _ inner => by
    obtain ⟨items, closing⟩ := inner.clean
    intro n inside
    rcases List.mem_cons.mp inside with rfl | inside
    · exact Sequence.clean (margins_flow (cur.isTrivia_of_token token) closing)
    · exact items n inside
  | .mapping token _ inner => by
    obtain ⟨entries, closing⟩ := inner.clean
    intro n inside
    rcases List.mem_cons.mp inside with rfl | inside
    · exact Mapping.clean (margins_flow (cur.isTrivia_of_token token) closing)
    · exact entries n inside
  | .scalar _ _ read => by
    intro n inside
    rw [List.mem_singleton.mp inside]
    exact clean_of_readScalar read

theorem ReadsFlowItems.clean {cur last : Cursor} {is : List Item} {closing : Text} :
    ReadsFlowItems cur is closing last →
      (∀ n ∈ itemsNodes is, n.Clean) ∧ isTrivia closing = true
  | .close token _ => ⟨by simp [itemsNodes], cur.isTrivia_of_token token⟩
  | .item token _ valueRead commaRead others => by
    obtain ⟨items, closing⟩ := others.clean
    refine ⟨?_, closing⟩
    intro n inside
    rcases List.mem_append.mp inside with inside | inside
    · rcases List.mem_cons.mp inside with rfl | inside
      · exact Item.clean (cur.isTrivia_of_token token) (isTrivia_of_readComma commaRead)
      · exact valueRead.clean n inside
    · exact items n inside

theorem ReadsFlowEntries.clean {cur last : Cursor} {es : List Entry} {closing : Text} :
    ReadsFlowEntries cur es closing last →
      (∀ n ∈ entriesNodes es, n.Clean) ∧ isTrivia closing = true
  | .close token _ => ⟨by simp [entriesNodes], cur.isTrivia_of_token token⟩
  | .entry token _ keyRead valueRead commaRead others => by
    obtain ⟨entries, closing⟩ := others.clean
    obtain ⟨-, -, keyLead, unmarked⟩ := readFlowKey_takes keyRead
    refine ⟨?_, closing⟩
    intro n inside
    rcases List.mem_append.mp inside with inside | inside
    · rcases List.mem_cons.mp inside with rfl | inside
      · exact Entry.clean (cur.isTrivia_of_token token) (gap_of_readFlowKey keyRead)
          (isTrivia_of_readComma commaRead)
      · rcases List.mem_cons.mp inside with rfl | inside
        · exact clean_of_key keyLead unmarked
        · exact valueRead.clean n inside
    · exact entries n inside

theorem ReadsFlowEntryValue.clean {cur last : Cursor} {v : Value} :
    ReadsFlowEntryValue cur v last → ∀ n ∈ v.nodes, n.Clean
  | .absent empty _ => by
    intro n inside
    rw [List.mem_singleton.mp inside]
    exact clean_of_empty empty
  | .value _ _ valueRead => valueRead.clean

end

theorem ReadsPlainValue.clean {floor : Nat} {cur last : Cursor} {v : Value}
    (h : ReadsPlainValue floor cur v last) : ∀ n ∈ v.nodes, n.Clean := by
  cases h with
  | flow _ valueRead => exact valueRead.clean
  | block indicator opening read =>
    obtain ⟨-, -, lead, unmarked⟩ := readBlockScalar_takes indicator opening read
    intro n inside
    rw [List.mem_singleton.mp inside]
    refine Scalar.clean ?_ unmarked
    rw [lead]
    exact cur.isTrivia_lead
  | scalar _ read =>
    intro n inside
    rw [List.mem_singleton.mp inside]
    exact clean_of_readScalar read

mutual

theorem ReadsValue.clean {floor : Nat} {cur last : Cursor} {v : Value} :
    ReadsValue floor cur v last → ∀ n ∈ v.nodes, n.Clean
  | .sequence _ itemsRead => by
    intro n inside
    rcases List.mem_cons.mp inside with rfl | inside
    · exact Sequence.clean (by simp [CollectionStyle.margins])
    · exact itemsRead.clean n inside
  | .mapping _ _ entriesRead => by
    intro n inside
    rcases List.mem_cons.mp inside with rfl | inside
    · exact Mapping.clean (by simp [CollectionStyle.margins])
    · exact entriesRead.clean n inside
  | .plain _ _ valueRead => valueRead.clean

theorem ReadsEntries.clean {column : Nat} {cur last : Cursor} {es : List Entry} :
    ReadsEntries column cur es last → ∀ n ∈ entriesNodes es, n.Clean
  | .last token keyRead valueRead _ => by
    obtain ⟨-, -, keyLead, unmarked⟩ := readKey_takes keyRead
    intro n inside
    rw [entriesNodes, entriesNodes, List.append_nil] at inside
    rcases List.mem_cons.mp inside with rfl | inside
    · exact Entry.clean (cur.isTrivia_of_token token) (gap_of_readKey keyRead) (by simp)
    · rcases List.mem_cons.mp inside with rfl | inside
      · exact clean_of_key keyLead unmarked
      · exact valueRead.clean n inside
  | .more token keyRead valueRead _ others => by
    obtain ⟨-, -, keyLead, unmarked⟩ := readKey_takes keyRead
    intro n inside
    rcases List.mem_append.mp inside with inside | inside
    · rcases List.mem_cons.mp inside with rfl | inside
      · exact Entry.clean (cur.isTrivia_of_token token) (gap_of_readKey keyRead) (by simp)
      · rcases List.mem_cons.mp inside with rfl | inside
        · exact clean_of_key keyLead unmarked
        · exact valueRead.clean n inside
    · exact others.clean n inside

theorem ReadsEntryValue.clean {column : Nat} {cur last : Cursor} {v : Value} :
    ReadsEntryValue column cur v last → ∀ n ∈ v.nodes, n.Clean
  | .absent empty _ => by
    intro n inside
    rw [List.mem_singleton.mp inside]
    exact clean_of_empty empty
  | .inline _ _ _ _ valueRead => valueRead.clean
  | .nested _ _ _ valueRead => valueRead.clean
  | .sequence _ _ _ _ itemsRead => by
    intro n inside
    rcases List.mem_cons.mp inside with rfl | inside
    · exact Sequence.clean (by simp [CollectionStyle.margins])
    · exact itemsRead.clean n inside

theorem ReadsItems.clean {column : Nat} {cur last : Cursor} {is : List Item} :
    ReadsItems column cur is last → ∀ n ∈ itemsNodes is, n.Clean
  | .last token _ _ valueRead _ => by
    intro n inside
    rw [itemsNodes, itemsNodes, List.append_nil] at inside
    rcases List.mem_cons.mp inside with rfl | inside
    · exact Item.clean (cur.isTrivia_of_token token) (by simp)
    · exact valueRead.clean n inside
  | .more token _ _ valueRead _ others => by
    intro n inside
    rcases List.mem_append.mp inside with inside | inside
    · rcases List.mem_cons.mp inside with rfl | inside
      · exact Item.clean (cur.isTrivia_of_token token) (by simp)
      · exact valueRead.clean n inside
    · exact others.clean n inside

theorem ReadsItemValue.clean {column : Nat} {cur last : Cursor} {v : Value} :
    ReadsItemValue column cur v last → ∀ n ∈ v.nodes, n.Clean
  | .absent empty _ => by
    intro n inside
    rw [List.mem_singleton.mp inside]
    exact clean_of_empty empty
  | .value _ _ valueRead => valueRead.clean

end

theorem ReadsBody.clean {cur last : Cursor} {v : Value} (h : ReadsBody cur v last) :
    ∀ n ∈ v.nodes, n.Clean := by
  cases h with
  | absent empty _ =>
    intro n inside
    rw [List.mem_singleton.mp inside]
    exact clean_of_empty empty
  | value _ valueRead => exact valueRead.clean

theorem ReadsDocument.clean {cur last : Cursor} {d : Document} (h : ReadsDocument cur d last) :
    ∀ n ∈ d.nodes, n.Clean := by
  obtain ⟨start, lead, -, bodyRead, ending⟩ := h
  rename_i afterStart afterBody opening
  intro n inside
  rcases List.mem_cons.mp inside with rfl | inside
  · refine ⟨?_, by simp, by simp⟩
    intro t inside
    simp only [Node.margins, List.mem_cons, List.not_mem_nil, or_false] at inside
    rcases inside with rfl | rfl
    · rw [lead]
      rcases readDocumentStart_eq.mp start with ⟨-, rfl, -⟩ | ⟨-, rfl, -⟩
      · exact cur.isTrivia_lead
      · exact isTrivia_nil
    · rw [(readDocumentEnd_eq_ok.mp ending).1]
      exact afterBody.isTrivia_lead
  · exact bodyRead.clean n inside

theorem ReadsDocuments.clean {cur : Cursor} {ds : List Document} {trailer : Text}
    (h : ReadsDocuments cur ds trailer) :
    (∀ d ∈ ds, ∀ n ∈ d.nodes, n.Clean) ∧ isTrivia trailer = true := by
  induction h with
  | @last cur last d documentRead _ =>
    refine ⟨?_, ?_⟩
    · intro d' inside
      rw [List.mem_singleton.mp inside]
      exact documentRead.clean
    · split
      · exact last.isTrivia_lead
      · exact isTrivia_nil
  | more documentRead _ _ ih =>
    refine ⟨?_, ih.2⟩
    intro d' inside
    rcases List.mem_cons.mp inside with rfl | inside
    · exact documentRead.clean
    · exact ih.1 d' inside

theorem clean_of_parse {text : Text} {s : Stream} (parsed : parse text = .ok s) :
    ∀ n ∈ s.nodes, n.Clean := by
  obtain ⟨documents, -⟩ := ReadsDocuments.clean (readsStream_of_parse parsed)
  intro n inside
  obtain ⟨d, isDocument, inside⟩ := List.mem_flatMap.mp inside
  exact documents d isDocument n inside

/-- In a stream that was read nothing significant stands outside of keys, values and signs: each
line of a margin or of the trailer is empty behind its leading blanks or a comment, and between a
key and its colon there are only spaces and tabs. -/
theorem isTrivia_of_parse {text : Text} {s : Stream} (parsed : parse text = .ok s) :
    (∀ n ∈ s.nodes, ∀ t ∈ n.margins, isTrivia t = true) ∧ isTrivia s.trailer = true ∧
      ∀ e, Node.entry e ∈ s.nodes → ∀ c ∈ e.gap, c = ' ' ∨ c = '\t' := by
  obtain ⟨-, trailer⟩ := ReadsDocuments.clean (readsStream_of_parse parsed)
  have clean := clean_of_parse parsed
  refine ⟨?_, trailer, ?_⟩
  · intro n inside
    exact (clean n inside).margins
  · intro e inside
    exact (clean _ inside).gap e rfl

/-- The trivia of a text with comments at most places that have room for one. -/
theorem isTrivia_of_parse_annotatedText :
    ∃ s, parse annotatedText = .ok s ∧ s.trailer = "  \n".toList ∧
      " # note\n".toList ∈ s.nodes.flatMap Node.margins ∧
      (∀ n ∈ s.nodes, ∀ t ∈ n.margins, isTrivia t = true) ∧ isTrivia s.trailer = true ∧
      ∀ e, Node.entry e ∈ s.nodes → ∀ c ∈ e.gap, c = ' ' ∨ c = '\t' := by
  obtain ⟨s, parsed, trailer, comment⟩ : ∃ s, parse annotatedText = .ok s ∧
      s.trailer = "  \n".toList ∧ " # note\n".toList ∈ s.nodes.flatMap Node.margins :=
    exists_parse (by decide +kernel)
  exact ⟨s, parsed, trailer, comment, isTrivia_of_parse parsed⟩

end Yaml

end ConfigTree
