import ConfigTree.Glob.Parse
import ConfigTree.Proofs.Glob.Wildcards

/-!
# Reading patterns without brackets

A pattern without brackets, braces and backslashes can always be read. It is its characters one by
one, but for two stars at the start or behind a slash: before another slash they stand for
directories and take that slash along. Where they do, the pattern asks for fewer slashes than are
written in it.
-/

namespace ConfigTree.Glob

/-- The characters with which classes, alternatives and escapes are written. -/
def specials : List Char := ['[', '\x7b', '\x7d', '\\']

namespace Levels

/-- The levels outside all braces. -/
def outside (tokens : List Token) : Levels := ⟨⟨[], tokens⟩, []⟩

@[simp] theorem inBraces_outside (tokens : List Token) : (outside tokens).inBraces = false := rfl

@[simp] theorem push_outside (tokens : List Token) (t : Token) :
    (outside tokens).push t = outside (t :: tokens) := rfl

end Levels

open Levels

variable {steps : Nat} {before : Option Char} {tokens : List Token} {t : Text}

theorem readPattern_plain {x : Char} (plain : x ∉ specials)
    (single : x = '*' → t.head? ≠ some '*') :
    readPattern (steps + 1) before (outside tokens) (x :: t) =
      readPattern steps (some x) (outside (wildcardToken x :: tokens)) t := by
  conv =>
    lhs
    unfold readPattern
  split <;> simp_all [specials, wildcardToken]
  split
  · next star => rw [star]
  · split
    · next any => rw [any]
    · rfl

theorem readPattern_doubleStar :
    readPattern (steps + 1) before (outside tokens) ('*' :: '*' :: t) =
      if (doubleStar false before tokens t).2 then
        readPattern steps (some '/') (outside (doubleStar false before tokens t).1) (t.drop 1)
      else readPattern steps (some '*') (outside (doubleStar false before tokens t).1) t := by
  rfl

/-- Two stars before a slash stand nowhere behind a slash in the text, and where `opens` holds not
at its start either. -/
def NoDirectories (opens : Prop) (t : Text) : Prop :=
  (opens → ¬ "**/".toList <+: t) ∧ ¬ "/**/".toList <:+: t

theorem NoDirectories.tail {opens : Prop} {x : Char} (free : NoDirectories opens (x :: t)) :
    NoDirectories (x = '/') t := by
  refine ⟨?_, fun inside => free.2 (inside.trans (List.suffix_cons x t).isInfix)⟩
  rintro rfl directories
  exact free.2 ((List.cons_prefix_cons.mpr ⟨rfl, directories⟩).isInfix)

theorem patternAccepts_append {inPath : Bool} {p q : Pattern} {s : List UInt8} :
    PatternAccepts inPath (p ++ q) s ↔
      Then (PatternAccepts inPath p) (PatternAccepts inPath q) s := by
  induction p generalizing s with
  | nil => exact then_empty.symm
  | cons t p ih =>
    have rest : PatternAccepts inPath (p ++ q) =
        Then (PatternAccepts inPath p) (PatternAccepts inPath q) := funext fun _ => propext ih
    rw [List.cons_append, PatternAccepts, rest]
    exact then_assoc

/-- Two stars at the end behind a slash are no more than two stars. -/
theorem inside_iff {s : List UInt8} :
    PatternAccepts false [.inside] s ↔ PatternAccepts false [.literal '/', .star, .star] s := by
  have bytes : String.utf8EncodeChar '/' = [slash] := by decide
  simp only [PatternAccepts, Token.Accepts, bytes]
  constructor
  · rintro ⟨_, _, rfl, ⟨u, rfl⟩, rfl⟩
    exact ⟨[slash], u, by simp, rfl, u, [], by simp, by simp, [], [], rfl, by simp, rfl⟩
  · rintro ⟨_, v, rfl, rfl, -⟩
    exact ⟨slash :: v, [], by simp, ⟨v, rfl⟩, rfl⟩

theorem NoDirectories.mono {opens opens' : Prop} (same : opens' → opens)
    (free : NoDirectories opens t) : NoDirectories opens' t :=
  ⟨free.1 ∘ same, free.2⟩

/-- Whether directories can begin: at the start and behind a slash. -/
def Opens (before : Option Char) (tokens : List Token) : Prop := tokens = [] ∨ before = some '/'

instance : Decidable (Opens before tokens) := inferInstanceAs (Decidable (_ ∨ _))

theorem opens_cons {x : Char} {token : Token} : Opens (some x) (token :: tokens) ↔ x = '/' := by
  simp [Opens]

/-- The tokens with directories at their end: they take the place of a slash, and directories at the
start go on. -/
def withDirectories (directories : Token) : List Token → List Token
  | [] => [.leadingDirectories]
  | .leadingDirectories :: others => .leadingDirectories :: others
  | .inside :: others => .inside :: others
  | _ :: others => directories :: others

theorem doubleStar_outside :
    doubleStar false before tokens t =
      if Opens before tokens ∧ t = [] then (withDirectories .inside tokens, false)
      else if Opens before tokens ∧ t.head? = some '/' then
        (withDirectories .innerDirectories tokens, true)
      else (.star :: .star :: tokens, false) := by
  cases tokens with
  | nil => simp [doubleStar, Opens, withDirectories]
  | cons last others =>
    by_cases slash : before = some '/'
    · cases last <;> simp [doubleStar, Opens, withDirectories, slash]
    · simp [doubleStar, Opens, slash]

/-- A text begins with two stars, or not. -/
theorem doubleStar_or (x : Char) (t : Text) :
    (∃ rest, x = '*' ∧ t = '*' :: rest) ∨ (x = '*' → t.head? ≠ some '*') := by
  cases t with
  | nil => exact .inr (by simp)
  | cons y t =>
    by_cases both : x = '*' ∧ y = '*'
    · exact .inl ⟨t, both.1, by rw [both.2]⟩
    · exact .inr (by simpa using both)

theorem wildcardToken_ne (x : Char) : wildcardToken x ≠ .leadingDirectories := by
  rw [wildcardToken]
  split
  · simp
  · split <;> simp

theorem patternAccepts_stars (s : List UInt8) : PatternAccepts false [.star, .star] s := by
  simp only [PatternAccepts, Token.Accepts]
  exact ⟨s, [], by simp, by simp, [], [], rfl, by simp, rfl⟩

/-- Two stars at the end are no more than two stars. -/
theorem ending_iff {s : List UInt8}
    (ends : tokens = [] ∨ ∃ others, tokens = .literal '/' :: others) :
    (withDirectories .inside tokens).reverse = [.leadingDirectories] ∨
        PatternAccepts false (withDirectories .inside tokens).reverse s ↔
      PatternAccepts false (tokens.reverse ++ [.star, .star]) s := by
  obtain rfl | ⟨others, rfl⟩ := ends
  · exact iff_of_true (.inl rfl) (patternAccepts_stars s)
  · have whole : (withDirectories .inside (.literal '/' :: others)).reverse =
      others.reverse ++ [.inside] := List.reverse_cons
    have other : others.reverse ++ [.inside] ≠ [.leadingDirectories] := fun same => by
      have last := congrArg List.getLast? same
      simp at last
    have expanded : (Token.literal '/' :: others).reverse ++ [.star, .star] =
        others.reverse ++ [.literal '/', .star, .star] := by simp
    rw [whole, or_iff_right other, expanded, patternAccepts_append, patternAccepts_append]
    simp only [Then, inside_iff]

/-- A pattern without brackets and without directories stands for what its characters stand for. -/
theorem exists_readPattern (enough : t.length < steps) (plain : ∀ x ∈ t, x ∉ specials)
    (behind : before = some '/' → ∃ others, tokens = .literal '/' :: others)
    (noLeading : .leadingDirectories ∉ tokens) (free : NoDirectories (Opens before tokens) t) :
    ∃ p, readPattern steps before (outside tokens) t = some p ∧
      ∀ s, p = [.leadingDirectories] ∨ PatternAccepts false p s ↔
        PatternAccepts false (tokens.reverse ++ t.map wildcardToken) s := by
  -- On the steps, with the tokens so far. Behind a slash the last of them is that slash, which two
  -- stars at the end take into their own token.
  induction steps generalizing before tokens t with
  | zero => cases enough
  | succ steps ih =>
    cases t with
    | nil =>
      refine ⟨tokens.reverse, rfl, fun s => ?_⟩
      have other : tokens.reverse ≠ [.leadingDirectories] := fun same =>
        noLeading (List.mem_reverse.mp (same ▸ List.mem_singleton_self _))
      rw [List.map_nil, List.append_nil, or_iff_right other]
    | cons x t =>
      obtain ⟨rest, rfl, rfl⟩ | single := doubleStar_or x t
      · rw [readPattern_doubleStar, doubleStar_outside]
        have stars : ('*' :: '*' :: rest).map wildcardToken =
          .star :: .star :: rest.map wildcardToken := rfl
        rw [stars]
        split
        · next atEnd =>
          obtain ⟨opens, rfl⟩ := atEnd
          obtain ⟨steps, rfl⟩ : ∃ n, steps = n + 1 := ⟨steps - 1, by simp at enough; omega⟩
          refine ⟨(withDirectories .inside tokens).reverse, rfl, fun s => ?_⟩
          exact ending_iff (opens.imp_right behind)
        · split
          · next directories =>
            refine absurd ?_ (free.1 directories.1)
            obtain ⟨rest', rfl⟩ := List.head?_eq_some_iff.mp directories.2
            exact ⟨rest', rfl⟩
          · obtain ⟨p, read, stands⟩ := @ih (some '*') (.star :: .star :: tokens) rest
              (by simp at enough; omega) (fun y isIn => plain y (by simp [isIn])) (by simp)
              (by simpa using noLeading) (free.tail.tail.mono (by simp [Opens]))
            exact ⟨p, read, fun s => by rw [stands]; simp⟩
      · obtain ⟨p, read, stands⟩ := @ih (some x) (wildcardToken x :: tokens) t
          (by simpa using enough) (fun y isIn => plain y (by simp [isIn]))
          (fun slash => ⟨tokens, by rw [Option.some.inj slash]; rfl⟩)
          (by simpa [noLeading] using (wildcardToken_ne x).symm)
          (free.tail.mono opens_cons.mp)
        refine ⟨p, ?_, fun s => ?_⟩
        · rw [readPattern_plain (plain x (by simp)) single]
          exact read
        · rw [stands]
          simp

/-- A name without brackets and without directories, and with clear runs of wildcards, matches the
texts that divide along its wildcards. -/
theorem Matcher.isMatch_ofText_iff {k c : Text} (plain : ∀ x ∈ k, x ∉ specials)
    (free : NoDirectories True k) (clear : ∀ run ∈ Run.runsFrom .empty k, run.Clear) :
    (Matcher.ofText k).isMatch c = true ↔ StandsFor k c := by
  rw [Matcher.ofText]
  split
  · obtain ⟨p, read, stands⟩ := @exists_readPattern (k.length + 1) none [] k (Nat.lt_succ_self _)
      plain (by simp) (by simp) (free.mono fun _ => trivial)
    have parsed : parse? k = some p := read
    rw [parsed]
    exact (Pattern.isMatch_iff false p c).trans ((stands _).trans (bytesStandFor_iff clear))
  · next noWildcards =>
    rw [List.contains_iff_mem, List.contains_iff_mem, not_or] at noWildcards
    rw [standsFor_iff_eq noWildcards.1 noWildcards.2]
    exact beq_iff_eq

/-! ## Directories -/

/-- A token that is neither a class nor alternatives. -/
def Token.IsPlain : Token → Prop
  | .charClass _ _ => False
  | .alternatives _ => False
  | _ => True

/-- A text that a plain token stands for, with no more slashes than it asks for. -/
def Token.least : Token → Text
  | .literal c => [c]
  | .any => ['x']
  | .innerDirectories => ['/']
  | .inside => ['/']
  | _ => []

theorem Token.accepts_least {token : Token} (plain : token.IsPlain) :
    token.Accepts false token.least.utf8 := by
  have slash : (Text.utf8 ['/']) = [Glob.slash] := by decide
  cases token with
  | literal c => simp [Token.Accepts, Token.least]
  | any => exact ⟨_, (by decide : Text.utf8 ['x'] = [0x78]), by simp⟩
  | star => simp [Token.Accepts, Token.least]
  | leadingDirectories => simp [Token.Accepts, Token.least]
  | innerDirectories => exact .inl slash
  | inside => exact ⟨[], slash⟩
  | charClass => exact plain.elim
  | alternatives => exact plain.elim

theorem patternAccepts_least {p : Pattern} (plain : ∀ token ∈ p, token.IsPlain) :
    PatternAccepts false p (Text.utf8 (p.flatMap Token.least)) := by
  induction p with
  | nil => rfl
  | cons token p ih =>
    rw [List.forall_mem_cons] at plain
    exact ⟨_, _, by rw [List.flatMap_cons, Text.utf8_append], Token.accepts_least plain.1,
      ih plain.2⟩

/-- The number of slashes that tokens ask for. -/
def slashes (tokens : List Token) : Nat := (tokens.flatMap Token.least).count '/'

theorem slashes_cons (token : Token) (tokens : List Token) :
    slashes (token :: tokens) = token.least.count '/' + slashes tokens := by
  rw [slashes, List.flatMap_cons, List.count_append, slashes]

theorem slashes_reverse (tokens : List Token) : slashes tokens.reverse = slashes tokens := by
  induction tokens with
  | nil => rfl
  | cons token tokens ih =>
    rw [slashes, List.reverse_cons, List.flatMap_append, List.count_append, ← slashes, ih,
      slashes_cons, List.flatMap_singleton, Nat.add_comm]

/-- Behind a slash the last token asks for one, or stands for directories at the start. -/
def BehindSlash (before : Option Char) (tokens : List Token) : Prop :=
  before = some '/' → ∃ last others, tokens = last :: others ∧
    (last = .leadingDirectories ∨ last.least.count '/' = 1)

theorem slashes_withDirectories {directories : Token} (one : directories.least.count '/' = 1)
    (behind : BehindSlash before tokens) (opens : Opens before tokens) :
    slashes (withDirectories directories tokens) = slashes tokens := by
  rcases opens with rfl | slash
  · rfl
  · obtain ⟨last, others, rfl, own⟩ := behind slash
    cases last <;> simp_all [withDirectories, slashes_cons, Token.least]

theorem isPlain_withDirectories (directories : Token) (own : directories.IsPlain)
    (plain : ∀ token ∈ tokens, token.IsPlain) :
    ∀ token ∈ withDirectories directories tokens, token.IsPlain := by
  unfold withDirectories
  split <;> simp_all [Token.IsPlain]

theorem behindSlash_withDirectories :
    BehindSlash (some '/') (withDirectories .innerDirectories tokens) := by
  intro
  unfold withDirectories
  split
  · exact ⟨_, _, rfl, .inl rfl⟩
  · exact ⟨_, _, rfl, .inl rfl⟩
  · exact ⟨_, _, rfl, .inr rfl⟩
  · exact ⟨_, _, rfl, .inr rfl⟩

theorem isPlain_wildcardToken (x : Char) : (wildcardToken x).IsPlain := by
  rw [wildcardToken]
  split
  · trivial
  · split <;> trivial

theorem count_least_wildcardToken (x : Char) (t : Text) :
    (wildcardToken x).least.count '/' + t.count '/' = (x :: t).count '/' := by
  rw [wildcardToken, List.count_cons]
  split
  · next star => simp [star, Token.least]
  · split
    · next any => simp [any, Token.least]
    · simp [Token.least, List.count_cons, Nat.add_comm]

theorem behindSlash_wildcardToken (x : Char) :
    BehindSlash (some x) (wildcardToken x :: tokens) := by
  intro slash
  obtain rfl := Option.some.inj slash
  exact ⟨_, _, rfl, .inr rfl⟩

theorem noDirectories_nil (opens : Prop) : NoDirectories opens [] :=
  ⟨fun _ starts => absurd (List.eq_nil_of_prefix_nil starts) (by decide),
    fun inside => absurd (List.eq_nil_of_infix_nil inside) (by decide)⟩

theorem noDirectories_of_noSlash (opens : Prop) (noSlash : '/' ∉ t) : NoDirectories opens t :=
  ⟨fun _ starts => noSlash (starts.subset (by decide)),
    fun inside => noSlash (inside.subset (by decide))⟩

theorem NoDirectories.cons {opens : Prop} {x : Char} (single : x = '*' → t.head? ≠ some '*')
    (free : NoDirectories (x = '/') t) : NoDirectories opens (x :: t) := by
  constructor
  · rintro - ⟨rest, same⟩
    obtain ⟨rfl, rfl⟩ := List.cons.inj (same : '*' :: '*' :: '/' :: rest = x :: t)
    exact single rfl rfl
  · intro inside
    rcases List.infix_cons_iff.mp inside with starts | within
    · obtain ⟨slash, directories⟩ := List.cons_prefix_cons.mp starts
      exact free.1 slash.symm directories
    · exact free.2 within

theorem NoDirectories.doubleStar {opens : Prop} (elsewhere : opens → t.head? ≠ some '/')
    (free : NoDirectories False t) : NoDirectories opens ('*' :: '*' :: t) := by
  constructor
  · rintro opens ⟨rest, same⟩
    obtain rfl : '/' :: rest = t := by simpa using same
    exact elsewhere opens rfl
  · intro inside
    rcases List.infix_cons_iff.mp inside with starts | within
    · exact absurd (List.cons_prefix_cons.mp starts).1 (by decide)
    · rcases List.infix_cons_iff.mp within with starts | within
      · exact absurd (List.cons_prefix_cons.mp starts).1 (by decide)
      · exact free.2 within

/-- A pattern that was read from `t` behind the tokens asks for no more slashes than these have, and
for fewer if there are directories in `t`. -/
structure AsksWithin (before : Option Char) (tokens : List Token) (t : Text) (p : Pattern) :
    Prop where
  simple : ∀ token ∈ p, token.IsPlain
  enough : slashes p ≤ slashes tokens + t.count '/'
  tight : slashes p = slashes tokens + t.count '/' → NoDirectories (Opens before tokens) t

namespace AsksWithin

variable {before' : Option Char} {p : Pattern}

theorem nil (simple : ∀ token ∈ tokens, token.IsPlain) :
    AsksWithin before tokens [] tokens.reverse where
  simple := by simpa using simple
  enough := by
    rw [slashes_reverse]
    exact Nat.le_add_right _ _
  tight _ := noDirectories_nil _

/-- One character goes. -/
theorem plain {x : Char} (single : x = '*' → t.head? ≠ some '*')
    (behind : AsksWithin (some x) (wildcardToken x :: tokens) t p) :
    AsksWithin before tokens (x :: t) p := by
  obtain ⟨simple, enough, tight⟩ := behind
  have here : slashes (wildcardToken x :: tokens) + t.count '/' =
      slashes tokens + (x :: t).count '/' := by
    rw [slashes_cons, ← count_least_wildcardToken]
    omega
  rw [here] at enough tight
  exact ⟨simple, enough, fun full => .cons single ((tight full).mono opens_cons.mpr)⟩

theorem count_doubleStar (t : Text) : ('*' :: '*' :: t).count '/' = t.count '/' := by simp

/-- Two stars go that are no more than two stars. -/
theorem stars (elsewhere : Opens before tokens → t.head? ≠ some '/')
    (behind : AsksWithin (some '*') (.star :: .star :: tokens) t p) :
    AsksWithin before tokens ('*' :: '*' :: t) p := by
  obtain ⟨simple, enough, tight⟩ := behind
  have none : slashes (.star :: .star :: tokens) = slashes tokens := by
    simp [slashes_cons, Token.least]
  rw [none] at enough tight
  refine ⟨simple, by rwa [count_doubleStar], fun full => ?_⟩
  rw [count_doubleStar] at full
  exact .doubleStar elsewhere ((tight full).mono False.elim)

/-- Two stars at the end go. They are no more than two stars. -/
theorem atEnd (opens : Opens before tokens) (slash : BehindSlash before tokens)
    (behind : AsksWithin before' (withDirectories .inside tokens) [] p) :
    AsksWithin before tokens ['*', '*'] p := by
  obtain ⟨simple, enough, -⟩ := behind
  rw [slashes_withDirectories rfl slash opens] at enough
  exact ⟨simple, enough, fun _ => .doubleStar (by simp) (noDirectories_nil _)⟩

/-- Directories go. The slash behind them is not asked for. -/
theorem directories (opens : Opens before tokens) (slash : BehindSlash before tokens)
    (behind : AsksWithin before' (withDirectories .innerDirectories tokens) t p) :
    AsksWithin before tokens ('*' :: '*' :: '/' :: t) p := by
  obtain ⟨simple, enough, -⟩ := behind
  rw [slashes_withDirectories rfl slash opens] at enough
  have fewer : slashes p < slashes tokens + ('*' :: '*' :: '/' :: t).count '/' := by
    rw [count_doubleStar, List.count_cons_self]
    omega
  exact ⟨simple, Nat.le_of_lt fewer, fun full => absurd full (Nat.ne_of_lt fewer)⟩

end AsksWithin

/-- A pattern without brackets asks for no more slashes than it has, and for fewer if it has
directories. -/
theorem asksWithin_of_readPattern {p : Pattern} (plain : ∀ x ∈ t, x ∉ specials)
    (simple : ∀ token ∈ tokens, token.IsPlain) (behind : BehindSlash before tokens)
    (read : readPattern steps before (outside tokens) t = some p) :
    AsksWithin before tokens t p := by
  induction steps generalizing before tokens t with
  | zero => cases read
  | succ steps ih =>
    cases t with
    | nil =>
      obtain rfl : tokens.reverse = p := Option.some.inj read
      exact .nil simple
    | cons x t =>
      obtain ⟨rest, rfl, rfl⟩ | single := doubleStar_or x t
      · rw [readPattern_doubleStar, doubleStar_outside] at read
        have plain : ∀ y ∈ rest, y ∉ specials := fun y isIn => plain y (by simp [isIn])
        split at read
        · next ends =>
          obtain ⟨opens, rfl⟩ := ends
          have simple := isPlain_withDirectories .inside trivial simple
          exact .atEnd opens behind (ih plain simple (fun slash => by simp at slash) read)
        · next elsewhere =>
          split at read
          · next directories =>
            obtain ⟨opens, slash⟩ := directories
            obtain ⟨rest, rfl⟩ := List.head?_eq_some_iff.mp slash
            have simple := isPlain_withDirectories .innerDirectories trivial simple
            exact .directories opens behind (ih (fun y isIn => plain y (List.mem_cons_of_mem _ isIn))
              simple behindSlash_withDirectories read)
          · next other =>
            have simple : ∀ token ∈ .star :: .star :: tokens, token.IsPlain := by
              simpa [Token.IsPlain] using simple
            exact .stars (fun opens slash => other ⟨opens, slash⟩)
              (ih plain simple (fun slash => by simp at slash) read)
      · rw [readPattern_plain (plain x (by simp)) single] at read
        have simple := List.forall_mem_cons.mpr ⟨isPlain_wildcardToken x, simple⟩
        exact .plain single (ih (fun y isIn => plain y (by simp [isIn])) simple
          (behindSlash_wildcardToken x) read)

end ConfigTree.Glob
