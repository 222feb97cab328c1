import ConfigTree.Proofs.Yaml.KeptColumns

/-!
# Editing, printing and reading again

A plain scalar in a block collection is given another text that is a plain scalar by itself. The
edited stream is read back from what it prints as exactly if the edit keeps the column of what
stands behind the scalar: if nothing else stands on its line, or both texts take as many bytes.
-/

namespace ConfigTree.Yaml

/-- The text of an entry with the key `k`. -/
def entryText (v : Text) : Text := ['k', ':', ' '] ++ v

/-- Whether the text is read back as a plain scalar when it stands behind a key. -/
def ReadsBackAsPlain (v : Text) : Prop :=
  ∃ s d m e t, parse (entryText v) = .ok s ∧ s.documents = [d] ∧ d.body = .mapping m ∧
    m.style = .block ∧ m.entries = [e] ∧ e.key.text = ['k'] ∧ e.value = .scalar t ∧
    t.style = .plain ∧ t.text = v

/-- Behind the key and its colon comes what stands behind the colon. -/
theorem rest_of_readKey {v : Text} {key : Scalar} {gap : Text} {last : Cursor}
    (read : readKey ⟨[], .start (entryText v)⟩ = .ok ((key.unnumbered, gap), last))
    (text : key.text = ['k']) : last.rest = ' ' :: v := by
  obtain ⟨taken, -, -, -⟩ := readKey_takes read
  obtain ⟨-, rest, scanned, -, -⟩ := readKey_eq_ok.mp read
  obtain ⟨-, -, -, inline, -⟩ := scanKey_eq_some.mp scanned
  have whole : ['k', ':', ' '] ++ v = key.written ++ gap ++ [':'] ++ last.rest := taken.rest_eq
  have written : key.written = ['k'] := by
    unfold Scalar.written at whole ⊢
    rw [text] at whole ⊢
    cases style : key.style with
    | plain => rfl
    | singleQuoted | doubleQuoted | literal | folded =>
      rw [style] at whole
      simp at whole
  rw [written] at whole
  cases gap with
  | nil => simpa using whole.symm
  | cons c gap =>
    have colon : c = ':' := by simpa using (List.cons.inj (List.cons.inj whole).2).1.symm
    have blank := inline c List.mem_cons_self
    rw [colon] at blank
    contradiction

/-- A scalar that is all that is left behind a blank has a text that is a plain scalar by itself. -/
theorem plainText_of_reads {floor : Nat} {cur last : Cursor} {t : Scalar} (nonempty : t.text ≠ [])
    (rest : cur.rest = ' ' :: t.text) (notItem : opensItem cur.token.here.rest = false)
    (read : ReadsPlainValue floor cur (.scalar t) last) (plain : t.style = .plain) :
    PlainText t.text := by
  obtain ⟨notIndicator, read⟩ := read.of_plain plain
  obtain ⟨-, here, -⟩ := scanPlain_of_readScalar read plain
  have more : cur.token.here.rest ≠ [] := by
    rw [here]
    exact List.append_ne_nil_of_left_ne_nil nonempty _
  have closed : blankOrEnd cur.rest = true := by
    rw [rest]
    rfl
  obtain ⟨leadNonempty, mayOpen⟩ := Cursor.mayOpen_of_blankOrEnd closed more
  have ends : last.rest = [] := by
    have lengths := congrArg List.length cur.lead_append_token
    have positive := List.length_pos_iff.mpr leadNonempty
    rw [rest, here, List.length_append, List.length_append, List.length_cons] at lengths
    exact List.eq_nil_of_length_eq_zero (by omega)
  rw [ends, List.append_nil] at here
  have starts : trivia cur.token.here.commentMayOpen false cur.token.here.rest =
      ([], cur.token.here.rest) := trivia_of_rest cur.commentMayOpen false cur.rest
  obtain ⟨supported, style, text, rest', scanned, -, fresh, same⟩ := readScalar_eq_ok.mp read
  have sameStyle : style = .plain := (congrArg Scalar.style fresh).symm.trans plain
  have sameText : text = t.text := (congrArg Scalar.text fresh).symm
  have noRest : rest' = [] := by
    rw [same] at ends
    exact ends
  rw [here] at supported notIndicator notItem scanned starts
  rw [mayOpen] at starts
  rw [sameStyle, sameText, noRest] at scanned
  exact ⟨nonempty, supported, notIndicator, starts, notItem, scanned⟩

/-- A text that is read back behind a key is read back wherever a plain scalar stands in
block context. -/
theorem ReadsBackAsPlain.plainText {v : Text} (nonempty : v ≠ []) (h : ReadsBackAsPlain v) :
    PlainText v := by
  obtain ⟨s, d, m, e, t, parsed, documents, body, style, entries, key, value, plain, rfl⟩ := h
  have read := readsStream_of_parse parsed
  rw [ReadsStream, documents] at read
  obtain ⟨mid, documentRead, -, -⟩ := read.first
  cases documentRead with
  | @document afterStart afterBody _ opening _ start lead explicitStart bodyRead ending =>
    obtain ⟨-, rfl⟩ : opening = none ∧ afterStart = .start (entryText t.text) := by
      rcases readDocumentStart_eq.mp start with ⟨marker, -, -⟩ | ⟨-, none, same⟩
      · contradiction
      · exact ⟨none, same⟩
    rw [body] at bodyRead
    obtain ⟨floor, mappingRead⟩ := bodyRead.reads.resolve_left <| by
      rintro ⟨s, scalar, -⟩
      contradiction
    obtain ⟨id, _, _⟩ := m
    obtain rfl : _ = CollectionStyle.block := style
    obtain rfl : _ = [e] := entries
    cases mappingRead with
    | plain _ _ valueRead => cases valueRead with | flow _ flowRead => cases flowRead
    | mapping notItem opens entriesRead =>
      obtain ⟨_, _, _, _, _, _, afterColon, last, _, same, found, keyRead, valueRead, -⟩ :=
        entriesRead.first
      obtain ⟨rfl, -⟩ := List.cons.inj same
      obtain ⟨rfl, rfl⟩ := Token.mk.inj found
      obtain rfl : _ = Value.scalar t := value
      have behindColon := rest_of_readKey keyRead key
      obtain ⟨floor, scalarRead⟩ := valueRead.reads.resolve_left <| by
        rintro ⟨s, scalar, empty, -⟩
        exact nonempty (Value.scalar.inj scalar ▸ congrArg Scalar.text empty)
      cases scalarRead with
      | plain notItem notEntry plainRead =>
        exact plainText_of_reads nonempty behindColon notItem plainRead plain

theorem replaces_withText {t : Scalar} {revision : Nat} {v : Text} (plain : t.style = .plain)
    (unmarked : t.mark = none) (nonempty : t.text ≠ []) (changed : v ≠ t.text)
    (text : PlainText v) :
    Replaces t (t.withText revision v) := by
  rw [Scalar.withText, if_neg changed]
  exact ⟨plain, unmarked, nonempty, rfl, plain, unmarked, text⟩

/-- The same text again changes nothing. -/
theorem Stream.rewrite_self {source : Text} {s : Stream} (parsed : parse source = .ok s)
    {t : Scalar}
    (isNode : .scalar t ∈ s.nodes) : s.rewrite t t.text = s := by
  have fixed : ∀ d ∈ s.documents,
      d.visit (rewriting t.id s.nextRevision t.text) s.nextRevision = d := by
    intro d isDocument
    refine Document.visit_of_fixed fun k inside => ?_
    by_cases same : k.id = t.id
    · have isNode' : .scalar k ∈ s.nodes := List.mem_flatMap_of_mem isDocument inside
      obtain rfl := Node.scalar.inj (eq_of_id parsed isNode' isNode same)
      rw [if_pos rfl, Scalar.withText, if_pos rfl]
    · rw [if_neg same]
  rw [Stream.rewrite, Stream.visit, Stream.withDocuments, List.map_congr_left fixed, List.map_id',
    if_pos rfl]

/-- A plain scalar in a block collection gets another text that is plain by itself. Nothing but that
scalar changes. The edited stream is read back from what it prints as exactly if nothing else stands
on the line of the scalar or the texts take as many bytes. -/
theorem parse_print_of_rewrite {source : Text} {s : Stream} (parsed : parse source = .ok s)
    {n : Node} {t : Scalar} (isNode : n ∈ s.nodes) (holds : n.HoldsInBlock t)
    (plain : t.style = .plain) (nonempty : t.text ≠ []) {v : Text} (full : v ≠ [])
    (readsBack : ReadsBackAsPlain v) :
    ∃ after keys before behind, s.textsAfter t.id = [after] ∧
      s.scalars = before ++ (keys, t) :: behind ∧
      (s.rewrite t v).scalars = before ++ (keys, t.withText s.nextRevision v) :: behind ∧
      ((∃ back, parse (s.rewrite t v).print = .ok back ∧
          back.unnumbered = (s.rewrite t v).unnumbered) ↔
        EndsLine after ∨ (Text.utf8 v).length = (Text.utf8 t.text).length) := by
  have text := readsBack.plainText full
  have read := readsStream_of_parse parsed
  by_cases same : v = t.text
  · subst same
    have changed : 'x' :: t.text ≠ t.text := List.cons_ne_self _ _
    obtain ⟨after, edit, -, texts⟩ := Stream.rewritten parsed changed isNode holds
    obtain ⟨keys, before, behind, found, -⟩ := edit.scalars_eq
    rw [Stream.rewrite_self parsed (Stream.mem_nodes isNode holds.mem), Scalar.withText, if_pos rfl]
    refine ⟨after ++ s.trailer, keys, before, behind, texts, found, found, ?_⟩
    refine ⟨fun _ => .inr rfl, fun _ => ⟨s, ?_, rfl⟩⟩
    rw [read.print_eq, parsed]
  · obtain ⟨after, edit, trailer, texts⟩ := Stream.rewritten parsed same isNode holds
    have replaces : Replaces t (t.withText s.nextRevision v) :=
      replaces_withText plain (unmarked_of_parse parsed isNode holds) nonempty same text
    obtain ⟨keys, before, behind, found, found'⟩ := edit.scalars_eq
    have newText : (t.withText s.nextRevision v).text = v := by
      rw [Scalar.withText, if_neg same]
    have condition : KeepsColumn t (t.withText s.nextRevision v) (after ++ s.trailer) ↔
        EndsLine (after ++ s.trailer) ∨ (Text.utf8 v).length = (Text.utf8 t.text).length := by
      rw [KeepsColumn, newText]
    refine ⟨after ++ s.trailer, keys, before, behind, texts, found, found', ?_⟩
    rw [← condition]
    constructor
    · rintro ⟨back, parsed', sameTree⟩
      have read' := readsStream_of_unnumbered parsed' sameTree.symm
      rw [ReadsStream, trailer] at read'
      have aligned : (Cursor.start source).Aligned (.start (s.rewrite t v).print) := ⟨rfl, rfl⟩
      exact edit.keepsColumn replaces aligned read read'
    · intro keeps
      exact parse_of_readsStream (read.edited replaces trailer (edit.edits keeps))

/-- A sequence that goes on behind a scalar: the key in front of the scalar ends on a second line,
so that the next dash comes to stand below the first. -/
def dashBehindText : Text := "      - x:\n          'a\nb': S\r- y\n".toList

def dashBehindScalar : Scalar := ⟨firstAt 10, [' '], .plain, ['S'], none⟩

def dashBehindMapping : Mapping :=
  ⟨firstAt 7, .block, [⟨firstAt 8, "\n          ".toList,
    ⟨firstAt 9, [], .singleQuoted, ['a', '\n', 'b'], none⟩, [], .scalar dashBehindScalar, none⟩]⟩

def dashBehindStream : Stream :=
  ⟨firstAt 0, [⟨firstAt 1, [], false, .sequence ⟨firstAt 2, .block,
    [⟨firstAt 3, "      ".toList, true, .mapping ⟨firstAt 4, .block, [⟨firstAt 5, [' '],
        ⟨firstAt 6, [], .plain, ['x'], none⟩, [], .mapping dashBehindMapping, none⟩]⟩, none⟩,
      ⟨firstAt 11, ['\r'], true, .scalar ⟨firstAt 12, [' '], .plain, ['y'], none⟩, none⟩]⟩,
    ['\n'], false⟩], []⟩

/-- A longer scalar moves the next dash, and the sequence is not read again. -/
theorem parse_print_of_rewrite_dashBehind :
    parse dashBehindText = .ok dashBehindStream ∧
      (Node.mapping dashBehindMapping).HoldsInBlock dashBehindScalar ∧
      ReadsBackAsPlain "longer".toList ∧
      ¬ ∃ back, parse (dashBehindStream.rewrite dashBehindScalar "longer".toList).print = .ok back ∧
        back.unnumbered =
          (dashBehindStream.rewrite dashBehindScalar "longer".toList).unnumbered := by
  have parsed : parse dashBehindText = .ok dashBehindStream := by decide +kernel
  have isNode : .mapping dashBehindMapping ∈ dashBehindStream.nodes := by
    simp [dashBehindStream, Stream.nodes, Document.nodes, Value.nodes, Sequence.nodes, itemsNodes,
      Item.nodes, Mapping.nodes, entriesNodes, Entry.nodes, dashBehindMapping]
  have holds : (Node.mapping dashBehindMapping).HoldsInBlock dashBehindScalar :=
    ⟨rfl, _, List.mem_cons_self, rfl⟩
  have readsBack : ReadsBackAsPlain "longer".toList :=
    ⟨_, _, _, _, _, rfl, rfl, rfl, rfl, rfl, rfl, rfl, rfl, rfl⟩
  obtain ⟨after, _, _, _, behind, -, -, condition⟩ :=
    parse_print_of_rewrite parsed isNode holds rfl (by decide) (by decide) readsBack
  have texts : dashBehindStream.textsAfter dashBehindScalar.id = ["\r- y\n".toList] := by
    decide +kernel
  rw [texts] at behind
  obtain ⟨rfl, -⟩ := List.cons.inj behind
  refine ⟨parsed, holds, readsBack, fun back => ?_⟩
  rcases condition.mp back with ends | sizes
  · exact absurd ends (by unfold EndsLine; decide)
  · exact absurd sizes (by decide)

end ConfigTree.Yaml
