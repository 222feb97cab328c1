import ConfigTree.Maven.Version
import ConfigTree.Proofs.Text.Cutting
import ConfigTree.Proofs.Text.Decimals

/-!
# Reading versions back

A version is written as numbers with dots between them, and perhaps a label behind a further dot or
a dash. Reading finds these numbers and this label.
-/

namespace ConfigTree

section Letters

variable {c : Char}

theorem isDigit_iff_toNat : c.isDigit = true ↔ 48 ≤ c.toNat ∧ c.toNat ≤ 57 :=
  Text.isDigit_iff.trans (and_congr UInt32.le_iff_toNat_le UInt32.le_iff_toNat_le)

theorem isUpper_iff_toNat : c.isUpper = true ↔ 65 ≤ c.toNat ∧ c.toNat ≤ 90 :=
  decide_eq_true_iff.trans (and_congr UInt32.le_iff_toNat_le UInt32.le_iff_toNat_le)

theorem isLower_iff_toNat : c.isLower = true ↔ 97 ≤ c.toNat ∧ c.toNat ≤ 122 :=
  Bool.and_eq_true_iff.trans <| and_congr (decide_eq_true_iff.trans UInt32.le_iff_toNat_le)
    (decide_eq_true_iff.trans UInt32.le_iff_toNat_le)

theorem isAlpha_iff : c.isAlpha = true ↔ c.isUpper = true ∨ c.isLower = true :=
  Bool.or_eq_true_iff

theorem isAlphanum_iff : c.isAlphanum = true ↔ c.isAlpha = true ∨ c.isDigit = true :=
  Bool.or_eq_true_iff

theorem toUpper_of_not_isLower (h : ¬ c.isLower = true) : c.toUpper = c :=
  dif_neg fun bounds => h <|
    isLower_iff_toNat.mpr (bounds.imp UInt32.le_iff_toNat_le.mp UInt32.le_iff_toNat_le.mp)

theorem isWhiteSpace_of_isAlphanum (h : c.isAlphanum = true) : isWhiteSpace c = false := by
  have bounds : 48 ≤ c.toNat ∧ c.toNat ≤ 122 := by
    rw [isAlphanum_iff, isAlpha_iff, isUpper_iff_toNat, isLower_iff_toNat, isDigit_iff_toNat] at h
    omega
  simp only [isWhiteSpace, Bool.or_eq_false_iff, Bool.and_eq_false_iff, decide_eq_false_iff_not,
    beq_eq_false_iff_ne]
  omega

end Letters

namespace Text

/-- Without white space. -/
def Solid (t : Text) : Prop := ∀ c ∈ t, isWhiteSpace c = false

theorem Solid.append {s t : Text} (first : Solid s) (second : Solid t) : Solid (s ++ t) :=
  List.forall_mem_append.mpr ⟨first, second⟩

theorem Solid.cons {c : Char} {t : Text} (first : isWhiteSpace c = false) (others : Solid t) :
    Solid (c :: t) := List.forall_mem_cons.mpr ⟨first, others⟩

theorem trimEndWhile_concat {p : Char → Bool} {c : Char} (kept : p c = false) (s : Text) :
    trimEndWhile p (s ++ [c]) = s ++ [c] := by
  rw [trimEndWhile, List.reverse_append, List.reverse_singleton, List.singleton_append,
    List.dropWhile_cons_of_neg (by simp [kept]), List.reverse_cons, List.reverse_reverse]

theorem Solid.trim_eq {t : Text} (solid : Solid t) : trim t = t := by
  have start : t.dropWhile isWhiteSpace = t := by
    cases t with
    | nil => rfl
    | cons c t => exact List.dropWhile_cons_of_neg (by simp [solid c])
  rw [trim, trimWhile, start]
  rcases List.eq_nil_or_concat t with rfl | ⟨s, c, rfl⟩
  · rfl
  · rw [List.concat_eq_append] at solid ⊢
    exact trimEndWhile_concat (solid c (by simp)) s

theorem mem_joinWith {sep c : Char} {pieces : List Text} (h : c ∈ joinWith sep pieces) :
    c = sep ∨ ∃ piece ∈ pieces, c ∈ piece := by
  induction pieces with
  | nil => contradiction
  | cons p ps ih =>
    cases ps with
    | nil => exact .inr ⟨p, List.mem_singleton_self p, h⟩
    | cons q qs =>
      rw [joinWith_cons_cons, List.mem_append, List.mem_cons] at h
      rcases h with inside | isSep | inside
      · exact .inr ⟨p, List.mem_cons_self, inside⟩
      · exact .inl isSep
      · exact (ih inside).imp_right fun ⟨piece, isPiece, inside⟩ =>
          ⟨piece, List.mem_cons_of_mem p isPiece, inside⟩

end Text

namespace Maven

variable {ns : List Numeral}

theorem versionPart?_text (n : Numeral) : versionPart? n.text = some n.value := by
  have digits : Text.numeral? 10 n.text = Text.digits? 10 n.text := by
    unfold Text.numeral?
    split
    case h_1 cs plus =>
      have digit := n.isDigit (c := '+') (by rw [plus]; exact List.mem_cons_self)
      contradiction
    case h_2 => rfl
  rw [versionPart?, digits, n.reads, Option.filter_some, if_pos (decide_eq_true n.small)]

theorem mapM_versionPart? (ns : List Numeral) :
    (ns.map Numeral.text).mapM versionPart? = some (ns.map Numeral.value) := by
  induction ns with
  | nil => rfl
  | cons n ns ih => simp [List.mapM_cons, versionPart?_text, ih]

/-- A dotted numeric version. -/
def dotted (ns : List Numeral) : Text := Text.joinWith '.' (ns.map Numeral.text)

theorem splitOn_dotted (nonempty : ns ≠ []) :
    Text.splitOn '.' (dotted ns) = ns.map Numeral.text := by
  apply Text.splitOn_joinWith (by simpa using nonempty)
  intro piece isPiece dot
  obtain ⟨n, -, rfl⟩ := List.mem_map.mp isPiece
  have digit := n.isDigit dot
  contradiction

theorem dotted_ne_nil (nonempty : ns ≠ []) : dotted ns ≠ [] := by
  intro empty
  have pieces := splitOn_dotted nonempty
  rw [empty] at pieces
  obtain ⟨n, -, blank⟩ := List.mem_map.mp
    (show [] ∈ ns.map Numeral.text by rw [← pieces]; exact List.mem_singleton_self [])
  exact n.text_ne_nil blank

theorem exists_digit_dotted (nonempty : ns ≠ []) :
    ∃ c t, dotted ns = c :: t ∧ c.isDigit = true := by
  cases ns with
  | nil => contradiction
  | cons n ns =>
    cases whole : n.text with
    | nil => exact absurd whole n.text_ne_nil
    | cons c t =>
      have digit := n.isDigit (c := c) (by rw [whole]; exact List.mem_cons_self)
      cases ns with
      | nil => exact ⟨c, t, whole, digit⟩
      | cons m ms =>
        refine ⟨c, t ++ '.' :: dotted (m :: ms), ?_, digit⟩
        rw [← List.cons_append, ← whole]
        rfl

theorem dotted_append {ms : List Numeral} (left : ns ≠ []) (right : ms ≠ []) :
    dotted (ns ++ ms) = dotted ns ++ '.' :: dotted ms := by
  rw [dotted, List.map_append,
    Text.joinWith_append '.' (by simpa using left) (by simpa using right)]
  rfl

theorem isNumeric_of_mem_dotted {c : Char} (h : c ∈ dotted ns) : Version.isNumeric c = true := by
  rcases Text.mem_joinWith h with rfl | ⟨piece, isPiece, inside⟩
  · rfl
  · obtain ⟨n, -, rfl⟩ := List.mem_map.mp isPiece
    rw [Version.isNumeric, n.isDigit inside, Bool.true_or]

theorem isWhiteSpace_of_isNumeric {c : Char} (h : Version.isNumeric c = true) :
    isWhiteSpace c = false := by
  rw [Version.isNumeric, Bool.or_eq_true, beq_iff_eq] at h
  rcases h with digit | rfl
  · exact isWhiteSpace_of_isAlphanum (isAlphanum_iff.mpr (.inr digit))
  · rfl

theorem solid_dotted (ns : List Numeral) : (dotted ns).Solid :=
  fun _ inside => isWhiteSpace_of_isNumeric (isNumeric_of_mem_dotted inside)

theorem trimEnd_dotted (ns : List Numeral) :
    Text.trimEndWhile (· == '.') (dotted ns) = dotted ns := by
  have last (n : Numeral) (front : Text) :
      Text.trimEndWhile (· == '.') (front ++ n.text) = front ++ n.text := by
    rcases List.eq_nil_or_concat n.text with empty | ⟨s, c, whole⟩
    · exact absurd empty n.text_ne_nil
    · rw [List.concat_eq_append] at whole
      have digit := n.isDigit (c := c) (by rw [whole]; simp)
      rw [whole, ← List.append_assoc]
      refine Text.trimEndWhile_concat ?_ _
      rw [beq_eq_false_iff_ne]
      rintro rfl
      contradiction
  rcases List.eq_nil_or_concat ns with rfl | ⟨front, n, rfl⟩
  · rfl
  · rw [List.concat_eq_append]
    by_cases alone : front = []
    · subst alone
      exact last n []
    · rw [dotted_append alone (List.cons_ne_nil n []), List.append_cons]
      exact last n _

namespace Version

theorem parse?_eq {raw : Text} (stops back : Text) (nonempty : ns ≠ []) (solid : raw.Solid)
    (dots : ∀ c ∈ stops, c = '.') (whole : raw = dotted ns ++ stops ++ back)
    (cut : ∀ c, back.head? = some c → isNumeric c = false) :
    parse? raw = some ⟨raw, ns.map Numeral.value,
      let label := back.dropWhile fun c => c == '-' || c == '.'
      if label.isEmpty then none else some label⟩ := by
  have numeric : ∀ c ∈ dotted ns ++ stops, isNumeric c = true :=
    List.forall_mem_append.mpr ⟨fun _ => isNumeric_of_mem_dotted, fun c dot => by
      rw [dots c dot]
      rfl⟩
  have taken : raw.takeWhile isNumeric = dotted ns ++ stops := by
    rw [whole, List.takeWhile_append_of_pos numeric]
    cases back with
    | nil => simp
    | cons c back => rw [List.takeWhile_cons_of_neg (by simp [cut c rfl]), List.append_nil]
  have left : raw.dropWhile isNumeric = back := by
    rw [whole, List.dropWhile_append_of_pos numeric]
    cases back with
    | nil => rfl
    | cons c back => exact List.dropWhile_cons_of_neg (by simp [cut c rfl])
  have numbers : Text.trimEndWhile (· == '.') (dotted ns ++ stops) = dotted ns := by
    rw [Text.trimEndWhile_append _ fun c dot => beq_iff_eq.mpr (dots c dot), trimEnd_dotted]
  have notEmpty : (dotted ns).isEmpty = false :=
    List.isEmpty_eq_false_iff.mpr (dotted_ne_nil nonempty)
  simp only [parse?, solid.trim_eq, Text.span, taken, left, numbers, notEmpty,
    splitOn_dotted nonempty, mapM_versionPart?]
  rfl

/-- Numbers with dots between them are a version. -/
theorem parse?_dotted (nonempty : ns ≠ []) :
    parse? (dotted ns) = some ⟨dotted ns, ns.map Numeral.value, none⟩ :=
  parse?_eq [] [] nonempty (solid_dotted ns) (by simp) (by simp) (by simp)

/-- A letter, and letters and digits behind it. -/
structure IsLabel (q : Text) : Prop where
  letter : ∃ c cs, q = c :: cs ∧ c.isAlpha = true
  alphanum : ∀ c ∈ q, c.isAlphanum = true

/-- Letters with digits behind them are a label. -/
theorem isLabel_append {letters digits : Text} (nonempty : letters ≠ [])
    (alpha : ∀ c ∈ letters, c.isAlpha = true) (digit : ∀ c ∈ digits, c.isDigit = true) :
    IsLabel (letters ++ digits) := by
  constructor
  · cases letters with
    | nil => exact absurd rfl nonempty
    | cons c letters => exact ⟨c, letters ++ digits, rfl, alpha c List.mem_cons_self⟩
  · intro c inside
    rw [isAlphanum_iff]
    exact (List.mem_append.mp inside).imp (alpha c) (digit c)

theorem isNumeric_of_isAlpha {c : Char} (h : c.isAlpha = true) : isNumeric c = false := by
  rw [isNumeric, Bool.or_eq_false_iff, beq_eq_false_iff_ne]
  constructor
  · rw [Bool.eq_false_iff]
    intro digit
    rw [isAlpha_iff, isUpper_iff_toNat, isLower_iff_toNat] at h
    rw [isDigit_iff_toNat] at digit
    omega
  · rintro rfl
    contradiction

/-- Numbers with dots between them and a label behind a dot or a dash are a version. -/
theorem parse?_labelled (nonempty : ns ≠ []) {sep : Char} (isSep : sep = '.' ∨ sep = '-')
    {q : Text} (label : IsLabel q) :
    parse? (dotted ns ++ sep :: q) =
      some ⟨dotted ns ++ sep :: q, ns.map Numeral.value, some q⟩ := by
  obtain ⟨⟨c, cs, rfl, letter⟩, alphanum⟩ := label
  have labelSolid : Text.Solid (c :: cs) :=
    fun c inside => isWhiteSpace_of_isAlphanum (alphanum c inside)
  have sepSolid : isWhiteSpace sep = false := by
    rcases isSep with rfl | rfl <;> rfl
  have solid := (solid_dotted ns).append (labelSolid.cons sepSolid)
  have kept : (c :: cs).dropWhile (fun c => c == '-' || c == '.') = c :: cs := by
    apply List.dropWhile_cons_of_neg
    rw [Bool.or_eq_true, beq_iff_eq, beq_iff_eq]
    rintro (rfl | rfl) <;> contradiction
  rcases isSep with rfl | rfl
  · have read := parse?_eq ['.'] (c :: cs) nonempty solid (by simp) (by simp)
      (by simpa using isNumeric_of_isAlpha letter)
    rw [kept] at read
    exact read
  · have read := parse?_eq [] ('-' :: c :: cs) nonempty solid (by simp) (by simp)
      (by simp [isNumeric])
    rw [List.dropWhile_cons_of_pos rfl, kept] at read
    exact read

end Version

end Maven

end ConfigTree
