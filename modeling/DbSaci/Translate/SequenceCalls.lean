import DbSaci.Library.Scanner
import DbSaci.Translate.ReplaceIdentifier
import DbSaci.Wire.BindParameters

set_option relaxedAutoImplicit false
set_option autoImplicit false

/-!
# Calls for pseudocolumns of sequences

In Oracle `s.NEXTVAL` and `s.CURRVAL` are pseudocolumns of the sequence `s`. PostgreSQL has functions
for them, with the name of the sequence as a text. The pass puts a call where a point and the word
follow an identifier. It reads one identifier at a time and leaves quoted ones alone.

## Main definitions

* `rewriteSequencePseudocolumns` — the pass.
* `Reference` — a pseudocolumn as it is written.
* `Piece` — what a statement consists of.
* `Simple` — a reference that the pass understands.
* `Trap` — what it takes for a reference.

## Main results

* `rewrite_eq_iff` — the pass puts the calls and nothing else exactly under a condition.
-/

namespace DbSaci.Translate.Sequence

open Text
open Wire (lineEnd commentEnd takeWhile_eq_take)

/-! ### The pass -/

/-- The function for a pseudocolumn. -/
def functionName (next : Bool) : List Char := if next then "nextval".toList else "currval".toList

/-- The function for a word, in any letter case. -/
def functionFor (kw : List Char) : Option (List Char) :=
  if upper kw = "NEXTVAL".toList then some (functionName true)
  else if upper kw = "CURRVAL".toList then some (functionName false)
  else none

/-- A call with a text. -/
def callText (function argument : List Char) : List Char :=
  function ++ ('(' :: '\'' :: (argument ++ ['\'', ')']))

/-- What is put for the text that starts with a character, and how much of what is behind it is part
of that. -/
def nextPart (c : Char) (s : List Char) : List Char × ℕ :=
  if c = '\'' ∨ c = '"' then (c :: s.take (skipQuoted c s), skipQuoted c s)
  else if c = '-' ∧ s.head? = some '-' then (c :: s.take (lineEnd s), lineEnd s)
  else if c = '/' ∧ s.head? = some '*' then (c :: s.take (commentEnd s), commentEnd s)
  else if c.isAlpha = true ∨ c = '_' then
    let ident := c :: s.takeWhile isWordByte
    let kw := ((s.dropWhile isWordByte).drop 1).takeWhile isWordByte
    match (s.dropWhile isWordByte).head?, functionFor kw with
    | some '.', some function => (callText function ident, ident.length + kw.length)
    | _, _ => (ident, ident.length - 1)
  else ([c], 0)

/-- `rewrite_sequence_pseudocolumns`. -/
def rewriteSequencePseudocolumns (sql : List Char) : List Char := (scan nextPart sql).flatten

/-! ### The statements -/

/-- The characters of an identifier without quotes. -/
def isIdentChar (c : Char) : Bool := isWordByte c || c = '$' || c = '#' || decide (128 ≤ c.toNat)

/-- An identifier, without quotes or in them. -/
inductive Ident
  | plain (word : List Char)
  | quoted (body : List Char)
  deriving DecidableEq

namespace Ident

/-- The text of an identifier. -/
def text : Ident → List Char
  | plain word => word
  | quoted body => '"' :: (body ++ ['"'])

/-- The characters are those of an identifier. -/
def Ok : Ident → Prop
  | plain word => word ≠ [] ∧ ∀ c ∈ word, isIdentChar c = true
  | quoted body => Doubled '"' body

/-- The name that Oracle makes of it. -/
def name : Ident → List Char
  | plain word => upper word
  | quoted body => body

end Ident

/-- What may stand around a point: white space and comments, as far as they start like that. -/
def Filler (g : List Char) : Prop :=
  ∀ c ∈ g.head?, c.isWhitespace = true ∨ c = '-' ∨ c = '/'

/-- A schema as it is written in front of a sequence, with what stands around the point. -/
structure Schema where
  ident : Ident
  gap : List Char
  gap' : List Char

/-- A pseudocolumn as it is written. -/
structure Reference where
  schema : Option Schema
  sequence : Ident
  gap : List Char
  gap' : List Char
  next : Bool
  word : List Char

namespace Reference

variable (r : Reference)

/-- The text in front of the point that belongs to the pseudocolumn. -/
def front : List Char :=
  (r.schema.elim [] fun s => s.ident.text ++ (s.gap ++ '.' :: s.gap')) ++ r.sequence.text

/-- The text of a reference. -/
def text : List Char := r.front ++ (r.gap ++ '.' :: (r.gap' ++ r.word))

/-- What is well formed. -/
structure Ok : Prop where
  schema : ∀ s ∈ r.schema, s.ident.Ok ∧ Filler s.gap ∧ Filler s.gap'
  sequence : r.sequence.Ok
  gap : Filler r.gap
  gap' : Filler r.gap'
  word : upper r.word = if r.next then "NEXTVAL".toList else "CURRVAL".toList

/-- The name of the sequence as an argument of PostgreSQL, with quotes doubled. -/
def argument : List Char :=
  ((r.schema.elim [] fun s => s.ident.text ++ ['.']) ++ r.sequence.text).flatMap fun c =>
    if c = '\'' then ['\'', '\''] else [c]

/-- The call for the pseudocolumn of that very sequence. -/
def call : List Char := callText (functionName r.next) r.argument

/-- The sequence: its schema, if it is written, and its name. -/
def key : Option (List Char) × List Char := (r.schema.map fun s => s.ident.name, r.sequence.name)

/-- A reference that the pass understands: a plain word of ASCII letters, digits and `_` that does
not start with a digit, with nothing else in front of it or around the point. -/
structure Simple : Prop where
  schema : r.schema = none
  gap : r.gap = []
  gap' : r.gap' = []
  plain : ∃ c w, r.sequence = .plain (c :: w) ∧ (c.isAlpha = true ∨ c = '_') ∧
    ∀ d ∈ w, isWordByte d = true

end Reference

/-- What a statement consists of: a reference, and around it literals, quoted identifiers, comments,
words and other characters. -/
inductive Piece
  | reference (r : Reference)
  | quoted (quote : Char) (body : List Char)
  | line (body : List Char)
  | block (body : List Char)
  | word (w : List Char)
  | symbol (c : Char)

namespace Piece

/-- The text of a piece. -/
def text : Piece → List Char
  | reference r => r.text
  | quoted q body => q :: (body ++ [q])
  | line body => '-' :: '-' :: body
  | block body => '/' :: '*' :: (body ++ ['*', '/'])
  | word w => w
  | symbol c => [c]

/-- The text with a call for a reference. -/
def called : Piece → List Char
  | reference r => r.call
  | p => p.text

/-- A piece that is well formed and ends where the text behind it starts. -/
def Ok (y : List Char) : Piece → Prop
  | reference r => r.Ok ∧ ∀ c ∈ y.head?, isIdentChar c = false
  | quoted q body => (q = '\'' ∨ q = '"') ∧ Doubled q body ∧ ∀ c ∈ y.head?, c ≠ q
  | line body => (∀ c ∈ body, c ≠ '\n') ∧ ∀ c ∈ y.head?, c = '\n'
  | block body => ¬ ['*', '/'] <:+: body
  | word w => w ≠ [] ∧ (∀ c ∈ w, isIdentChar c = true) ∧ ∀ c ∈ y.head?, isIdentChar c = false
  | symbol c => c ≠ '\'' ∧ c ≠ '"' ∧ c.isAlpha = false ∧ c ≠ '_' ∧
      ¬ (c = '-' ∧ y.head? = some '-') ∧ ¬ (c = '/' ∧ y.head? = some '*')

end Piece

/-- The text of a statement. -/
def source (ps : List Piece) : List Char := ps.flatMap Piece.text

/-- The text with calls for the references. -/
def called (ps : List Piece) : List Char := ps.flatMap Piece.called

/-- What follows the white space and the comments. -/
def skipFiller : List Piece → List Piece
  | .symbol c :: ps => if c.isWhitespace = true then skipFiller ps else .symbol c :: ps
  | .line _ :: ps => skipFiller ps
  | .block _ :: ps => skipFiller ps
  | ps => ps

/-- A pseudocolumn that is no reference: a point follows, and its word. -/
def Hidden (ps : List Piece) : Prop :=
  ∃ rest, skipFiller ps = .symbol '.' :: rest ∧
    ∃ w rest', skipFiller rest = .word w :: rest' ∧ functionFor w ≠ none

/-- The pieces are well formed, and the references are all pseudocolumns, with their schemas. -/
def WellFormed : List Piece → Prop
  | [] => True
  | p :: ps => p.Ok (source ps) ∧
    (match p with
      | .word _ => ¬ Hidden ps
      | .quoted _ _ => ¬ Hidden ps
      | .symbol c => c = '.' → ∀ r rest, skipFiller ps ≠ .reference r :: rest
      | _ => True) ∧
    WellFormed ps

/-- The last part of a word that the pass reads as an identifier. -/
def lastIdent (w : List Char) : List Char := (w.rtakeWhile isWordByte).dropWhile Char.isDigit

/-- The pass takes the end of a word for a sequence: a point follows, and a word that starts like a
pseudocolumn. -/
def Trap (w y : List Char) : Prop :=
  lastIdent w ≠ [] ∧ y.head? = some '.' ∧
    functionFor ((y.drop 1).takeWhile isWordByte) ≠ none

/-- There is no word that is taken for a sequence. -/
def TrapFree : List Piece → Prop
  | [] => True
  | .word w :: ps => ¬ Trap w (source ps) ∧ TrapFree ps
  | _ :: ps => TrapFree ps

/-! ### What is copied -/

lemma rewrite_cons (c : Char) (s : List Char) : rewriteSequencePseudocolumns (c :: s) =
    (nextPart c s).1 ++ rewriteSequencePseudocolumns (s.drop (nextPart c s).2) := by
  rw [rewriteSequencePseudocolumns, scan_cons, List.flatten_cons]
  rfl

/-- A part that is copied as a whole. -/
lemma rewrite_copy {c : Char} {x y : List Char}
    (h : nextPart c (x ++ y) = (c :: (x ++ y).take x.length, x.length)) :
    rewriteSequencePseudocolumns (c :: (x ++ y)) = c :: x ++ rewriteSequencePseudocolumns y := by
  rw [rewrite_cons, h, List.take_left, List.drop_left]

lemma rewrite_quoted {q : Char} {body y : List Char} (hq : q = '\'' ∨ q = '"')
    (hbody : Doubled q body) (hy : ∀ c ∈ y.head?, c ≠ q) :
    rewriteSequencePseudocolumns (q :: (body ++ [q]) ++ y) =
      q :: (body ++ [q]) ++ rewriteSequencePseudocolumns y := by
  apply rewrite_copy
  have hlen : skipQuoted q ((body ++ [q]) ++ y) = (body ++ [q]).length := by
    rw [List.append_assoc, List.singleton_append, skipQuoted_doubled hbody hy,
      List.length_append, List.length_singleton]
  rw [nextPart, if_pos hq, hlen]

lemma rewrite_line {body y : List Char} (hbody : ∀ c ∈ body, c ≠ '\n')
    (hy : ∀ c ∈ y.head?, c = '\n') :
    rewriteSequencePseudocolumns ('-' :: ('-' :: body) ++ y) =
      '-' :: ('-' :: body) ++ rewriteSequencePseudocolumns y := by
  apply rewrite_copy
  have hlen : lineEnd (('-' :: body) ++ y) = ('-' :: body).length := by
    have hall : ∀ c ∈ '-' :: body, (decide (c ≠ '\n')) = true := by
      intro c hc
      rcases List.mem_cons.1 hc with rfl | hc
      · decide
      · exact decide_eq_true (hbody c hc)
    have hstop : y.takeWhile (fun c => decide (c ≠ '\n')) = [] := by
      cases y with
      | nil => rfl
      | cons c y => simp [hy c rfl]
    rw [lineEnd, List.takeWhile_append_of_pos hall, hstop, List.append_nil]
  rw [nextPart, if_neg (by decide), if_pos ⟨rfl, rfl⟩, hlen]

lemma rewrite_block {body : List Char} (hbody : ¬ ['*', '/'] <:+: body) (y : List Char) :
    rewriteSequencePseudocolumns ('/' :: ('*' :: (body ++ ['*', '/'])) ++ y) =
      '/' :: ('*' :: (body ++ ['*', '/'])) ++ rewriteSequencePseudocolumns y := by
  apply rewrite_copy
  have hlen : commentEnd (('*' :: (body ++ ['*', '/'])) ++ y) =
      ('*' :: (body ++ ['*', '/'])).length := by
    have hfind : find ['*', '/'] ((body ++ ['*', '/']) ++ y) = some body.length := by
      rw [List.append_assoc]
      exact find_append (by decide) body y hbody
    have hdrop : (('*' :: (body ++ ['*', '/'])) ++ y).drop 1 = (body ++ ['*', '/']) ++ y := rfl
    rw [commentEnd, hdrop, hfind, Option.elim_some, List.length_cons, List.length_append]
    rfl
  have hline : ¬ ('/' = '-' ∧ (('*' :: (body ++ ['*', '/'])) ++ y).head? = some '-') :=
    fun h => absurd h.1 (by decide)
  rw [nextPart, if_neg (by decide), if_neg hline, if_pos ⟨rfl, rfl⟩, hlen]

lemma rewrite_symbol {c : Char} {y : List Char} (h : c ≠ '\'' ∧ c ≠ '"' ∧ c.isAlpha = false ∧
    c ≠ '_' ∧ ¬ (c = '-' ∧ y.head? = some '-') ∧ ¬ (c = '/' ∧ y.head? = some '*')) :
    rewriteSequencePseudocolumns (c :: y) = c :: rewriteSequencePseudocolumns y := by
  obtain ⟨h1, h2, h3, h4, h5, h6⟩ := h
  have halpha : ¬ (c.isAlpha = true ∨ c = '_') := by
    rw [h3]
    simp [h4]
  rw [rewrite_cons, nextPart, if_neg (not_or.2 ⟨h1, h2⟩), if_neg h5, if_neg h6, if_neg halpha]
  rfl

/-! ### Words -/

lemma isWordByte_of_isAlpha {c : Char} (h : c.isAlpha = true ∨ c = '_') : isWordByte c = true := by
  rw [isWordByte]
  rcases h with h | rfl
  · rw [Char.isAlphanum, h]
    rfl
  · rfl

/-- The characters of an identifier that the pass does not read as a part of one. -/
lemma symbol_of_isIdentChar {c : Char} (hc : isIdentChar c = true)
    (halpha : ¬ (c.isAlpha = true ∨ c = '_')) (y : List Char) :
    c ≠ '\'' ∧ c ≠ '"' ∧ c.isAlpha = false ∧ c ≠ '_' ∧
      ¬ (c = '-' ∧ y.head? = some '-') ∧ ¬ (c = '/' ∧ y.head? = some '*') := by
  obtain ⟨hnot, hne⟩ := not_or.1 halpha
  refine ⟨?_, ?_, Bool.eq_false_iff.2 hnot, hne, ?_, ?_⟩
  · rintro rfl
    cases hc
  · rintro rfl
    cases hc
  · rintro ⟨rfl, -⟩
    cases hc
  · rintro ⟨rfl, -⟩
    cases hc

/-- An identifier that the pass reads, with what follows it. -/
lemma nextPart_ident {c : Char} (hc : c.isAlpha = true ∨ c = '_') {w y : List Char}
    (hw : ∀ d ∈ w, isWordByte d = true) (hy : ∀ d ∈ y.head?, isWordByte d = false) :
    nextPart c (w ++ y) =
      match y.head?, functionFor ((y.drop 1).takeWhile isWordByte) with
      | some '.', some function => (callText function (c :: w),
        (c :: w).length + ((y.drop 1).takeWhile isWordByte).length)
      | _, _ => (c :: w, w.length) := by
  have htake : (w ++ y).takeWhile isWordByte = w := by
    rw [List.takeWhile_append_of_pos hw]
    cases y with
    | nil => simp
    | cons d y => simp [hy d rfl]
  have hdrop : (w ++ y).dropWhile isWordByte = y := by
    rw [List.dropWhile_append_of_pos hw]
    cases y with
    | nil => rfl
    | cons d y => simp [hy d rfl]
  have hquote : ¬ (c = '\'' ∨ c = '"') := by
    rintro (rfl | rfl)
    · simp at hc
    · simp at hc
  have hline : ¬ (c = '-' ∧ (w ++ y).head? = some '-') := by
    rintro ⟨rfl, -⟩
    simp at hc
  have hblock : ¬ (c = '/' ∧ (w ++ y).head? = some '*') := by
    rintro ⟨rfl, -⟩
    simp at hc
  rw [nextPart, if_neg hquote, if_neg hline, if_neg hblock, if_pos hc]
  simp only [htake, hdrop]
  rfl

lemma isWordByte_cases {c : Char} (h : isWordByte c = true) :
    (c.isAlpha = true ∨ c = '_') ∨ c.isDigit = true := by
  rw [isWordByte, Bool.or_eq_true, decide_eq_true_eq, Char.isAlphanum, Bool.or_eq_true] at h
  rcases h with (h | h) | h
  · exact Or.inl (Or.inl h)
  · exact Or.inr h
  · exact Or.inl (Or.inr h)

/-- What stands in front of another character is no part of it. -/
lemma lastIdent_append {x b : List Char} (h : ∃ d ∈ b, isWordByte d = false) :
    lastIdent (x ++ b) = lastIdent b := by
  have hne : (b.reverse.takeWhile isWordByte).length ≠ b.reverse.length := by
    intro hlen
    have hall := (List.takeWhile_prefix isWordByte).eq_of_length hlen
    obtain ⟨d, hd, hnot⟩ := h
    have hd' : d ∈ b.reverse.takeWhile isWordByte := by
      rw [hall]
      exact List.mem_reverse.2 hd
    rw [List.mem_takeWhile_imp hd'] at hnot
    cases hnot
  rw [lastIdent, lastIdent, List.rtakeWhile, List.rtakeWhile, List.reverse_append,
    List.takeWhile_append, if_neg hne]

/-- A word that the pass reads as one identifier. -/
lemma lastIdent_word {c : Char} {a : List Char} (hc : c.isAlpha = true ∨ c = '_')
    (ha : ∀ d ∈ a, isWordByte d = true) : lastIdent (c :: a) = c :: a := by
  have hall : ∀ d ∈ c :: a, isWordByte d = true := List.forall_mem_cons.2
    ⟨isWordByte_of_isAlpha hc, ha⟩
  have hdigit : ¬ c.isDigit = true := by
    intro hd
    rcases hc with hc | rfl
    · delta Char.isAlpha Char.isUpper Char.isLower at hc
      rw [Bool.or_eq_true] at hc
      rw [Char.isDigit, Bool.and_eq_true, decide_eq_true_eq, decide_eq_true_eq] at hd
      have hhigh : c.val.toNat ≤ 57 := hd.2
      rcases hc with hc | hc
      · rw [decide_eq_true_eq] at hc
        have hlow : 65 ≤ c.val.toNat := hc.1
        omega
      · rw [Bool.and_eq_true, decide_eq_true_eq] at hc
        have hlow : 97 ≤ c.val.toNat := hc.1
        omega
    · cases hd
  rw [lastIdent, List.rtakeWhile_eq_self_iff.2 hall, List.dropWhile_cons_of_neg hdigit]

/-- A character that starts no identifier of the pass does not count. -/
lemma lastIdent_cons {c : Char} (hc : ¬ (c.isAlpha = true ∨ c = '_')) (w : List Char) :
    lastIdent (c :: w) = lastIdent w := by
  by_cases hall : ∀ d ∈ w, isWordByte d = true
  · have hself : w.rtakeWhile isWordByte = w := List.rtakeWhile_eq_self_iff.2 hall
    rw [lastIdent, lastIdent, hself]
    cases hbyte : isWordByte c with
    | true =>
      have hdigit := (isWordByte_cases hbyte).resolve_left hc
      rw [List.rtakeWhile_eq_self_iff.2 (List.forall_mem_cons.2 ⟨hbyte, hall⟩),
        List.dropWhile_cons_of_pos hdigit]
    | false =>
      have htake : (c :: w).rtakeWhile isWordByte = w := by
        rw [List.rtakeWhile, List.reverse_cons, List.takeWhile_append_of_pos fun d hd =>
          hall d (List.mem_reverse.1 hd), List.takeWhile_cons_of_neg (by rw [hbyte]; decide),
          List.append_nil, List.reverse_reverse]
      rw [htake]
  · push Not at hall
    obtain ⟨d, hd, hnot⟩ := hall
    exact lastIdent_append (x := [c]) ⟨d, hd, Bool.eq_false_iff.2 hnot⟩

/-- What the pass reads as an identifier starts like one. -/
lemma lastIdent_cases (w : List Char) : lastIdent w = [] ∨ ∃ c a, lastIdent w = c :: a ∧
    (c.isAlpha = true ∨ c = '_') ∧ ∀ d ∈ a, isWordByte d = true := by
  cases h : lastIdent w with
  | nil => exact Or.inl rfl
  | cons c a =>
    have hmem : ∀ d ∈ c :: a, isWordByte d = true := by
      intro d hd
      rw [← h] at hd
      exact List.mem_rtakeWhile_imp ((List.dropWhile_sublist _).subset hd)
    have hdigit : ¬ c.isDigit = true := by
      have hhead := List.head?_dropWhile_not Char.isDigit (w.rtakeWhile isWordByte)
      have heq : (w.rtakeWhile isWordByte).dropWhile Char.isDigit = c :: a := h
      rw [heq] at hhead
      simpa using hhead
    refine Or.inr ⟨c, a, rfl, ?_, fun d hd => hmem d (List.mem_cons_of_mem c hd)⟩
    exact (isWordByte_cases (hmem c List.mem_cons_self)).resolve_right hdigit

/-- The pass copies what stands in front of the last part of a word. -/
lemma rewrite_front {w y : List Char} (hw : ∀ c ∈ w, isIdentChar c = true) :
    ∃ u, w = u ++ lastIdent w ∧ rewriteSequencePseudocolumns (w ++ y) =
      u ++ rewriteSequencePseudocolumns (lastIdent w ++ y) := by
  induction hn : w.length using Nat.strongRecOn generalizing w with
  | ind n ih =>
    cases w with
    | nil => exact ⟨[], rfl, rfl⟩
    | cons c w =>
      have hc := hw c List.mem_cons_self
      have hrest : ∀ d ∈ w, isIdentChar d = true := fun d hd => hw d (List.mem_cons_of_mem c hd)
      rw [List.length_cons] at hn
      by_cases halpha : c.isAlpha = true ∨ c = '_'
      · by_cases hall : ∀ d ∈ w, isWordByte d = true
        · exact ⟨[], by rw [lastIdent_word halpha hall]; rfl,
            by rw [lastIdent_word halpha hall]; rfl⟩
        · -- the identifier that is read ends in the word
          push Not at hall
          obtain ⟨e, he, hnot⟩ := hall
          have hsplit : w = w.takeWhile isWordByte ++ w.dropWhile isWordByte :=
            List.takeWhile_append_dropWhile.symm
          obtain ⟨d, b, hb⟩ : ∃ d b, w.dropWhile isWordByte = d :: b := by
            apply List.exists_cons_of_ne_nil
            intro hnil
            exact hnot (List.dropWhile_eq_nil_iff.1 hnil e he)
          have hd : isWordByte d = false := by
            have hhead := List.head?_dropWhile_not isWordByte w
            rw [hb] at hhead
            simpa using hhead
          rw [hb] at hsplit
          have hmem : ∀ f ∈ d :: b, isIdentChar f = true := by
            intro f hf
            apply hrest
            rw [hsplit]
            exact List.mem_append_right _ hf
          have hdot : d ≠ '.' := by
            rintro rfl
            have := hmem '.' List.mem_cons_self
            cases this
          have hlen : (d :: b).length < n := by
            have := congrArg List.length hsplit
            rw [List.length_append] at this
            omega
          obtain ⟨u, hu, hrewrite⟩ := ih _ hlen hmem rfl
          have hlast : lastIdent (c :: w) = lastIdent (d :: b) := by
            have := lastIdent_append (x := c :: w.takeWhile isWordByte) (b := d :: b)
              ⟨d, List.mem_cons_self, hd⟩
            rwa [List.cons_append, ← hsplit] at this
          have hpart := nextPart_ident halpha (w := w.takeWhile isWordByte) (y := d :: b ++ y)
            (fun f hf => List.mem_takeWhile_imp hf) (fun f hf => by
              obtain rfl : d = f := Option.some.inj hf
              exact hd)
          have hcopy : nextPart c (w.takeWhile isWordByte ++ (d :: b ++ y)) =
              (c :: w.takeWhile isWordByte, (w.takeWhile isWordByte).length) := by
            rw [hpart]
            simp only [List.cons_append, List.head?_cons]
            split
            · rename_i h _
              exact absurd (Option.some.inj h) hdot
            · rfl
          refine ⟨c :: (w.takeWhile isWordByte ++ u), ?_, ?_⟩
          · rw [hlast, List.cons_append, List.append_assoc, ← hu, ← hsplit]
          · have htext : c :: w ++ y = c :: (w.takeWhile isWordByte ++ (d :: b ++ y)) := by
              rw [← List.append_assoc, ← hsplit]
              rfl
            rw [htext, rewrite_cons, hcopy, List.drop_left, hrewrite, hlast]
            simp
      · obtain ⟨u, hu, hrewrite⟩ := ih _ (by omega) hrest rfl
        refine ⟨c :: u, ?_, ?_⟩
        · rw [lastIdent_cons halpha, List.cons_append, ← hu]
        · rw [List.cons_append, rewrite_symbol (symbol_of_isIdentChar hc halpha (w ++ y)), hrewrite,
            lastIdent_cons halpha, List.cons_append]

/-- **A word is copied** if it is not taken for a sequence. -/
theorem rewrite_word {w y : List Char} (hw : ∀ c ∈ w, isIdentChar c = true)
    (hy : ∀ c ∈ y.head?, isWordByte c = false) (htrap : ¬ Trap w y) :
    rewriteSequencePseudocolumns (w ++ y) = w ++ rewriteSequencePseudocolumns y := by
  obtain ⟨u, hu, hrewrite⟩ := rewrite_front (y := y) hw
  rw [hrewrite]
  have hlast : rewriteSequencePseudocolumns (lastIdent w ++ y) =
      lastIdent w ++ rewriteSequencePseudocolumns y := by
    rcases lastIdent_cases w with hnil | ⟨c, a, heq, hc, ha⟩
    · rw [hnil]
      rfl
    · have hcopy : nextPart c (a ++ y) = (c :: a, a.length) := by
        rw [nextPart_ident hc ha hy]
        split
        · rename_i function hdot hfun
          refine absurd ⟨?_, hdot, ?_⟩ htrap
          · rw [heq]
            exact List.cons_ne_nil c a
          · rw [hfun]
            exact Option.some_ne_none function
        · rfl
      rw [heq, List.cons_append, rewrite_cons, hcopy, List.drop_left]
  rw [hlast, ← List.append_assoc, ← hu]

/-- **The end of a word is taken for a sequence.** -/
theorem rewrite_trap {w y : List Char} (hw : ∀ c ∈ w, isIdentChar c = true) (htrap : Trap w y) :
    ∃ u function z, w = u ++ lastIdent w ∧
      functionFor ((y.drop 1).takeWhile isWordByte) = some function ∧
      z = rewriteSequencePseudocolumns (y.drop (1 + ((y.drop 1).takeWhile isWordByte).length)) ∧
      rewriteSequencePseudocolumns (w ++ y) = u ++ (callText function (lastIdent w) ++ z) := by
  obtain ⟨hne, hdot, hfun⟩ := htrap
  obtain ⟨function, hfun⟩ := Option.ne_none_iff_exists'.1 hfun
  obtain ⟨u, hu, hrewrite⟩ := rewrite_front (y := y) hw
  refine ⟨u, function, _, hu, hfun, rfl, ?_⟩
  obtain ⟨c, a, heq, hc, ha⟩ := (lastIdent_cases w).resolve_left hne
  have hy : ∀ d ∈ y.head?, isWordByte d = false := by
    rintro d hd
    rw [hdot] at hd
    rw [← Option.some.inj hd]
    rfl
  have hcall : nextPart c (a ++ y) = (callText function (c :: a),
      (c :: a).length + ((y.drop 1).takeWhile isWordByte).length) := by
    rw [nextPart_ident hc ha hy, hdot, hfun]
    rfl
  rw [hrewrite, heq, List.cons_append, rewrite_cons, hcall]
  congr 3
  rw [List.length_cons, Nat.add_assoc, ← List.drop_drop, List.drop_left]

/-! ### References -/

lemma functionFor_eq {kw : List Char} {next : Bool}
    (h : upper kw = if next then "NEXTVAL".toList else "CURRVAL".toList) :
    functionFor kw = some (functionName next) := by
  rw [functionFor, h]
  cases next
  · exact (if_neg (by decide)).trans (if_pos (by decide))
  · exact if_pos (by decide)

/-- A word in capitals has only ASCII letters. -/
lemma isWordByte_of_upper {kw word : List Char} (h : upper kw = word)
    (hword : ∀ c ∈ word, c.isAlpha = true) : ∀ c ∈ kw, isWordByte c = true := by
  intro c hc
  apply isWordByte_of_isAlpha
  left
  have hmem : c.toUpper ∈ word := by
    rw [← h]
    exact List.mem_map_of_mem hc
  have hup := hword _ hmem
  rcases toUpper_cases c with heq | ⟨halpha, -⟩
  · rwa [heq] at hup
  · exact halpha

lemma word_bytes {r : Reference} (h : r.Ok) : ∀ c ∈ r.word, isWordByte c = true := by
  apply isWordByte_of_upper h.word
  cases r.next <;> decide

lemma isWordByte_of_not_ident {c : Char} (h : isIdentChar c = false) : isWordByte c = false := by
  rw [← Bool.not_eq_true] at h ⊢
  intro hbyte
  apply h
  rw [isIdentChar, hbyte]
  rfl

/-- **A reference that the pass understands** becomes the call. -/
theorem rewrite_simple {r : Reference} (h : r.Ok) (hs : r.Simple) {y : List Char}
    (hy : ∀ c ∈ y.head?, isIdentChar c = false) :
    rewriteSequencePseudocolumns (r.text ++ y) = r.call ++ rewriteSequencePseudocolumns y := by
  obtain ⟨c, w, hseq, hc, hw⟩ := hs.plain
  have hbytes : ∀ d ∈ c :: w, isWordByte d = true :=
    List.forall_mem_cons.2 ⟨isWordByte_of_isAlpha hc, hw⟩
  have hident : ∀ d ∈ c :: w, isIdentChar d = true := by
    intro d hd
    rw [isIdentChar, hbytes d hd]
    rfl
  have htext : r.text ++ y = (c :: w) ++ '.' :: (r.word ++ y) := by
    simp [Reference.text, Reference.front, hs.schema, hs.gap, hs.gap', hseq, Ident.text]
  have htake : (r.word ++ y).takeWhile isWordByte = r.word := by
    rw [List.takeWhile_append_of_pos (word_bytes h)]
    cases y with
    | nil => simp
    | cons d y => simp [isWordByte_of_not_ident (hy d rfl)]
  have hfun := functionFor_eq h.word
  have htrap : Trap (c :: w) ('.' :: (r.word ++ y)) := by
    refine ⟨?_, rfl, ?_⟩
    · rw [lastIdent_word hc hw]
      exact List.cons_ne_nil c w
    · show functionFor ((r.word ++ y).takeWhile isWordByte) ≠ none
      rw [htake, hfun]
      exact Option.some_ne_none _
  obtain ⟨u, function, z, hu, hfun', hz, hrewrite⟩ := rewrite_trap hident htrap
  rw [lastIdent_word hc hw] at hu hrewrite
  obtain rfl : u = [] := List.append_left_eq_self.1 hu.symm
  have hdrop : ('.' :: (r.word ++ y)).drop 1 = r.word ++ y := rfl
  rw [hdrop, htake, hfun] at hfun'
  rw [hdrop, htake, ← List.drop_drop, hdrop, List.drop_left] at hz
  have hargument : r.argument = c :: w := by
    have hquote : ∀ d ∈ c :: w, (if d = '\'' then ['\'', '\''] else [d]) = [d] := by
      intro d hd
      rw [if_neg]
      rintro rfl
      cases hbytes '\'' hd
    have hfront : (r.schema.elim [] fun s => s.ident.text ++ ['.']) ++ r.sequence.text =
        c :: w := by
      simp [hs.schema, hseq, Ident.text]
    rw [Reference.argument, hfront, List.flatMap_congr hquote, List.flatMap_singleton']
  rw [htext, hrewrite, List.nil_append, hz, Reference.call, hargument, Option.some.inj hfun']

/-- What starts no identifier starts what is put for it. -/
lemma rewrite_head {c : Char} (hc : ¬ (c.isAlpha = true ∨ c = '_')) (s : List Char) :
    ∃ t, rewriteSequencePseudocolumns (c :: s) = c :: t := by
  obtain ⟨t, ht⟩ : ∃ t, (nextPart c s).1 = c :: t := by
    unfold nextPart
    split_ifs
    · exact ⟨_, rfl⟩
    · exact ⟨_, rfl⟩
    · exact ⟨_, rfl⟩
    · exact ⟨_, rfl⟩
  exact ⟨_, by rw [rewrite_cons, ht, List.cons_append]⟩

/-- The names of the functions. -/
lemma functionName_spec (next : Bool) : '(' ∉ functionName next ∧
    (∀ c ∈ functionName next, c.isAlpha = true) ∧ (functionName next).length = 7 := by
  cases next <;> decide

lemma functionFor_cases {kw f : List Char} (h : functionFor kw = some f) :
    ∃ next, f = functionName next := by
  rw [functionFor] at h
  split_ifs at h
  · exact ⟨true, (Option.some.inj h).symm⟩
  · exact ⟨false, (Option.some.inj h).symm⟩

lemma not_mem_ident {w : List Char} (hw : ∀ c ∈ w, isIdentChar c = true) {d : Char}
    (hd : isIdentChar d = false) : d ∉ w := by
  intro hmem
  rw [hw d hmem] at hd
  cases hd

/-- Two texts are cut in the same way at characters that do not stand in front. -/
lemma cut_eq {α : Type} {a b x y : List α} {c d : α} (hb : c ∉ b) (ha : d ∉ a)
    (h : a ++ c :: x = b ++ d :: y) : a = b ∧ c = d ∧ x = y := by
  rcases List.append_eq_append_iff.1 h with ⟨t, rfl, ht⟩ | ⟨t, rfl, ht⟩
  · cases t with
    | nil =>
      obtain ⟨hc, hx⟩ := List.cons.inj ht
      exact ⟨(List.append_nil a).symm, hc, hx⟩
    | cons e t =>
      obtain ⟨rfl, -⟩ := List.cons.inj ht
      exact absurd (List.mem_append_right a List.mem_cons_self) hb
  · cases t with
    | nil =>
      obtain ⟨hc, hx⟩ := List.cons.inj ht
      exact ⟨List.append_nil b, hc.symm, hx.symm⟩
    | cons e t =>
      obtain ⟨rfl, -⟩ := List.cons.inj ht
      exact absurd (List.mem_append_right b List.mem_cons_self) ha

/-- What follows an identifier. -/
lemma filler_dot {g : List Char} (hg : Filler g) (t : List Char) :
    ∃ d u, g ++ '.' :: t = d :: u ∧ isIdentChar d = false ∧ d ≠ '(' ∧ (d = '.' → g = [] ∧ u = t) := by
  cases g with
  | nil => exact ⟨'.', t, rfl, by decide, by decide, fun _ => ⟨rfl, rfl⟩⟩
  | cons c g =>
    refine ⟨c, g ++ '.' :: t, rfl, ?_⟩
    rcases hg c rfl with hc | rfl | rfl
    · rcases isWhitespace_cases hc with rfl | rfl | rfl | rfl
      · exact ⟨by decide, by decide, fun h => absurd h (by decide)⟩
      · exact ⟨by decide, by decide, fun h => absurd h (by decide)⟩
      · exact ⟨by decide, by decide, fun h => absurd h (by decide)⟩
      · exact ⟨by decide, by decide, fun h => absurd h (by decide)⟩
    · exact ⟨by decide, by decide, fun h => absurd h (by decide)⟩
    · exact ⟨by decide, by decide, fun h => absurd h (by decide)⟩

/-- No word follows a point and something else. -/
lemma not_function {d : Char} (hd : isWordByte d = false) (t : List Char) :
    functionFor ((d :: t).takeWhile isWordByte) = none := by
  rw [List.takeWhile_cons_of_neg (by rw [hd]; decide)]
  rfl

/-- What is put for a plain word is no call, unless the word is taken for a sequence as a whole. -/
lemma rewrite_plain_ne {w : List Char} (hw : ∀ c ∈ w, isIdentChar c = true) {g : List Char}
    (hg : Filler g) {t x : List Char} {next : Bool} {argument : List Char}
    (h : rewriteSequencePseudocolumns (w ++ (g ++ '.' :: t)) =
      callText (functionName next) argument ++ x) :
    g = [] ∧ lastIdent w = w ∧ functionFor (t.takeWhile isWordByte) ≠ none ∧
      ∃ z, w ++ '\'' :: z = argument ++ '\'' :: ')' :: x := by
  obtain ⟨hparen, halpha, hlen⟩ := functionName_spec next
  have hcall : callText (functionName next) argument ++ x =
      functionName next ++ '(' :: ('\'' :: (argument ++ '\'' :: ')' :: x)) := by
    simp [callText]
  have hno : '(' ∉ w := not_mem_ident hw (by decide)
  rw [hcall] at h
  obtain ⟨d, u, hdu, hident, hd, hdot⟩ := filler_dot hg t
  by_cases htrap : Trap w (g ++ '.' :: t)
  · obtain ⟨v, function, z, hv, hfun, -, hrewrite⟩ := rewrite_trap hw htrap
    obtain ⟨next', rfl⟩ := functionFor_cases hfun
    obtain ⟨hparen', -, hlen'⟩ := functionName_spec next'
    have hnov : '(' ∉ v ++ functionName next' := by
      intro hmem
      rcases List.mem_append.1 hmem with hmem | hmem
      · rw [hv] at hno
        exact hno (List.mem_append_left _ hmem)
      · exact hparen' hmem
    have htext : v ++ (callText (functionName next') (lastIdent w) ++ z) =
        (v ++ functionName next') ++ '(' :: ('\'' :: (lastIdent w ++ '\'' :: ')' :: z)) := by
      simp [callText]
    rw [hrewrite, htext] at h
    obtain ⟨hname, -, hrest⟩ := cut_eq hparen hnov h
    have hnil : v = [] := by
      have := congrArg List.length hname
      rw [List.length_append, hlen, hlen'] at this
      exact List.length_eq_zero_iff.1 (by omega)
    subst hnil
    rw [List.nil_append] at hv
    have hgap : g = [] ∧ u = t := by
      apply hdot
      have := htrap.2.1
      rw [hdu] at this
      exact Option.some.inj this
    refine ⟨hgap.1, hv.symm, ?_, ')' :: z, ?_⟩
    · have := htrap.2.2
      rw [hgap.1] at this
      exact this
    · rw [← hv] at hrest
      exact (List.cons.inj hrest).2
  · exfalso
    have hbyte : ∀ c ∈ (g ++ '.' :: t).head?, isWordByte c = false := by
      intro c hc
      rw [hdu] at hc
      rw [← Option.some.inj hc]
      exact isWordByte_of_not_ident hident
    have hnot : ¬ (d.isAlpha = true ∨ d = '_') := by
      intro hc
      have := isWordByte_of_isAlpha hc
      rw [isWordByte_of_not_ident hident] at this
      cases this
    obtain ⟨v, hv⟩ := rewrite_head hnot u
    rw [rewrite_word hw hbyte htrap, hdu, hv] at h
    have hmem : d ∉ functionName next := fun hmem => hnot (Or.inl (halpha d hmem))
    exact hd (cut_eq hmem hno h).2.1

/-- **A reference that the pass does not understand** does not become the call. -/
theorem rewrite_not_simple {r : Reference} (h : r.Ok) (hs : ¬ r.Simple) (y x : List Char) :
    rewriteSequencePseudocolumns (r.text ++ y) ≠ r.call ++ x := by
  intro heq
  have hquoted : ∀ body t, rewriteSequencePseudocolumns ('"' :: (body ++ ['"']) ++ t) ≠
      r.call ++ x := by
    intro body t hquote
    obtain ⟨v, hv⟩ := rewrite_head (c := '"') (by decide) ((body ++ ['"']) ++ t)
    obtain ⟨-, halpha, hlen⟩ := functionName_spec r.next
    rw [List.cons_append, hv, Reference.call, callText] at hquote
    cases hf : functionName r.next with
    | nil =>
      rw [hf] at hlen
      cases hlen
    | cons e f =>
      rw [hf] at hquote halpha
      obtain ⟨rfl, -⟩ := List.cons.inj hquote
      have := halpha '"' List.mem_cons_self
      cases this
  cases hschema : r.schema with
  | none =>
    cases hseq : r.sequence with
    | quoted body =>
      have htext : r.text ++ y =
          '"' :: (body ++ ['"']) ++ (r.gap ++ '.' :: (r.gap' ++ (r.word ++ y))) := by
        simp [Reference.text, Reference.front, hschema, hseq, Ident.text]
      rw [htext] at heq
      exact hquoted body _ heq
    | plain w =>
      have hok := h.sequence
      rw [hseq] at hok
      have htext : r.text ++ y = w ++ (r.gap ++ '.' :: (r.gap' ++ (r.word ++ y))) := by
        simp [Reference.text, Reference.front, hschema, hseq, Ident.text]
      rw [htext] at heq
      obtain ⟨hgap, hlast, hfun, -⟩ := rewrite_plain_ne hok.2 h.gap heq
      obtain ⟨c, a, hca, hc, ha⟩ := (lastIdent_cases w).resolve_left (by rw [hlast]; exact hok.1)
      refine hs ⟨hschema, hgap, ?_, c, a, by rw [hseq, ← hlast, hca], hc, ha⟩
      cases hgap' : r.gap' with
      | nil => rfl
      | cons d g =>
        rw [hgap'] at hfun
        refine absurd (not_function ?_ _) hfun
        have hfill := h.gap' d (by rw [hgap']; rfl)
        rcases hfill with hd | rfl | rfl
        · rcases isWhitespace_cases hd with rfl | rfl | rfl | rfl <;> decide
        · decide
        · decide
  | some s =>
    obtain ⟨hsok, hgap, hgap'⟩ := h.schema s hschema
    cases hident : s.ident with
    | quoted body =>
      have htext : r.text ++ y = '"' :: (body ++ ['"']) ++ (s.gap ++ '.' :: (s.gap' ++
          (r.sequence.text ++ (r.gap ++ '.' :: (r.gap' ++ (r.word ++ y)))))) := by
        simp [Reference.text, Reference.front, hschema, hident, Ident.text]
      rw [htext] at heq
      exact hquoted body _ heq
    | plain w =>
      rw [hident] at hsok
      have htext : r.text ++ y = w ++ (s.gap ++ '.' :: (s.gap' ++
          (r.sequence.text ++ (r.gap ++ '.' :: (r.gap' ++ (r.word ++ y)))))) := by
        simp [Reference.text, Reference.front, hschema, hident, Ident.text]
      rw [htext] at heq
      obtain ⟨-, -, -, z, hz⟩ := rewrite_plain_ne hsok.2 hgap heq
      -- the name of the schema would end with a quote
      have hescape : ∀ t : List Char, (w ++ t).flatMap (fun c =>
          if c = '\'' then ['\'', '\''] else [c]) = w ++ t.flatMap fun c =>
          if c = '\'' then ['\'', '\''] else [c] := by
        intro t
        have hsame : ∀ d ∈ w, (if d = '\'' then ['\'', '\''] else [d]) = [d] := by
          intro d hd
          rw [if_neg]
          rintro rfl
          cases hsok.2 '\'' hd
        rw [List.flatMap_append, List.flatMap_congr hsame, List.flatMap_singleton']
      have hargument : r.argument = w ++ '.' :: r.sequence.text.flatMap fun c =>
          if c = '\'' then ['\'', '\''] else [c] := by
        have hfront : (r.schema.elim [] fun s => s.ident.text ++ ['.']) ++ r.sequence.text =
            w ++ '.' :: r.sequence.text := by
          simp [hschema, hident, Ident.text]
        rw [Reference.argument, hfront, hescape]
        rfl
      rw [hargument, List.append_assoc] at hz
      have := List.append_cancel_left hz
      cases this

/-! ### Statements -/

lemma ident_text_ne_nil {i : Ident} (h : i.Ok) : i.text ≠ [] := by
  cases i with
  | plain w => exact h.1
  | quoted body => exact List.cons_ne_nil _ _

lemma ident_head {i : Ident} (h : i.Ok) : i.text.head? ≠ some '.' := by
  cases i with
  | plain w =>
    intro hdot
    have := h.2 '.' (List.mem_of_head? hdot)
    cases this
  | quoted body =>
    intro hdot
    cases hdot

/-- A reference starts with an identifier. -/
lemma reference_head {r : Reference} (h : r.Ok) (y : List Char) :
    (r.text ++ y).head? ≠ some '.' := by
  have hstart : ∃ (i : Ident) (t : List Char), i.Ok ∧ r.text ++ y = i.text ++ t := by
    cases hs : r.schema with
    | none =>
      exact ⟨r.sequence, r.gap ++ '.' :: (r.gap' ++ (r.word ++ y)), h.sequence, by
        simp [Reference.text, Reference.front, hs]⟩
    | some s =>
      exact ⟨s.ident, s.gap ++ '.' :: (s.gap' ++
        (r.sequence.text ++ (r.gap ++ '.' :: (r.gap' ++ (r.word ++ y))))), (h.schema s hs).1, by
        simp [Reference.text, Reference.front, hs]⟩
  obtain ⟨i, t, hi, htext⟩ := hstart
  rw [htext, List.head?_append_of_ne_nil _ (ident_text_ne_nil hi)]
  exact ident_head hi

/-- A point at the start stays there. -/
lemma called_head {ps : List Piece} (h : WellFormed ps) (hdot : (source ps).head? = some '.') :
    ∃ x, called ps = '.' :: x := by
  cases ps with
  | nil => cases hdot
  | cons p ps =>
    have hok := h.1
    have hsame : ∀ t : List Char, t ≠ [] → p.text = t → p.called = t →
        ∃ x, called (p :: ps) = '.' :: x := by
      intro t ht htext hcalled
      rw [source, List.flatMap_cons, htext, List.head?_append_of_ne_nil _ ht] at hdot
      obtain ⟨x, rfl⟩ := List.head?_eq_some_iff.1 hdot
      exact ⟨_, by rw [called, List.flatMap_cons, hcalled, List.cons_append]⟩
    cases p with
    | reference r => exact absurd hdot (reference_head hok.1 _)
    | quoted q body => exact hsame _ (List.cons_ne_nil _ _) rfl rfl
    | line body => exact hsame _ (List.cons_ne_nil _ _) rfl rfl
    | block body => exact hsame _ (List.cons_ne_nil _ _) rfl rfl
    | word w => exact hsame w hok.1 rfl rfl
    | symbol c => exact hsame _ (List.cons_ne_nil _ _) rfl rfl

/-- **The pass puts the calls and nothing else** exactly if it understands each reference, and takes
no word for a sequence. -/
theorem rewrite_eq_iff {ps : List Piece} (h : WellFormed ps) :
    rewriteSequencePseudocolumns (source ps) = called ps ↔
      (∀ r, Piece.reference r ∈ ps → r.Simple) ∧ TrapFree ps := by
  induction ps with
  | nil => exact iff_of_true rfl ⟨fun r hr => absurd hr List.not_mem_nil, trivial⟩
  | cons p ps ih =>
    obtain ⟨hok, -, hrest⟩ := h
    have ih := ih hrest
    have hcopied : p.text = p.called → (∀ r, p ≠ .reference r) →
        (rewriteSequencePseudocolumns (p.text ++ source ps) =
          p.text ++ rewriteSequencePseudocolumns (source ps)) →
        (TrapFree (p :: ps) ↔ TrapFree ps) →
        (rewriteSequencePseudocolumns (source (p :: ps)) = called (p :: ps) ↔
          (∀ r, Piece.reference r ∈ p :: ps → r.Simple) ∧ TrapFree (p :: ps)) := by
      intro htext hnot hrewrite htrap
      rw [source, called, List.flatMap_cons, List.flatMap_cons, ← source, ← called, hrewrite,
        ← htext, List.append_cancel_left_eq, ih, htrap]
      refine and_congr_left fun _ => ⟨fun hall r hr => ?_, fun hall r hr =>
        hall r (List.mem_cons_of_mem p hr)⟩
      rcases List.mem_cons.1 hr with hr | hr
      · exact absurd hr.symm (hnot r)
      · exact hall r hr
    cases p with
    | reference r =>
      have hall : (∀ r', Piece.reference r' ∈ Piece.reference r :: ps → r'.Simple) ↔
          r.Simple ∧ ∀ r', Piece.reference r' ∈ ps → r'.Simple := by
        constructor
        · exact fun hall => ⟨hall r List.mem_cons_self,
            fun r' hr' => hall r' (List.mem_cons_of_mem _ hr')⟩
        · rintro ⟨hr, hall⟩ r' hr'
          rcases List.mem_cons.1 hr' with heq | hr'
          · obtain rfl := Piece.reference.inj heq
            exact hr
          · exact hall r' hr'
      rw [hall, and_assoc, source, called, List.flatMap_cons, List.flatMap_cons, ← source, ← called]
      by_cases hs : r.Simple
      · rw [and_iff_right hs]
        show rewriteSequencePseudocolumns (r.text ++ source ps) = r.call ++ called ps ↔ _
        rw [rewrite_simple hok.1 hs hok.2, List.append_cancel_left_eq]
        exact ih
      · exact iff_of_false (rewrite_not_simple hok.1 hs _ _) fun hcond => hs hcond.1
    | quoted q body =>
      exact hcopied rfl (fun r hr => by cases hr) (rewrite_quoted hok.1 hok.2.1 hok.2.2) Iff.rfl
    | line body =>
      exact hcopied rfl (fun r hr => by cases hr) (rewrite_line hok.1 hok.2) Iff.rfl
    | block body =>
      exact hcopied rfl (fun r hr => by cases hr) (rewrite_block hok _) Iff.rfl
    | symbol c =>
      exact hcopied rfl (fun r hr => by cases hr) (rewrite_symbol hok) Iff.rfl
    | word w =>
      obtain ⟨-, hw, hy⟩ := hok
      by_cases htrap : Trap w (source ps)
      · -- the call is put for the end of the word
        refine iff_of_false ?_ fun hcond => hcond.2.1 htrap
        obtain ⟨u, function, z, hu, hfun, -, hrewrite⟩ := rewrite_trap hw htrap
        obtain ⟨next, rfl⟩ := functionFor_cases hfun
        obtain ⟨-, halpha, -⟩ := functionName_spec next
        obtain ⟨x, hx⟩ := called_head hrest htrap.2.1
        intro heq
        rw [source, called, List.flatMap_cons, List.flatMap_cons, ← source, ← called] at heq
        have heq : rewriteSequencePseudocolumns (w ++ source ps) = w ++ called ps := heq
        have htext : (u ++ lastIdent w) ++ called ps = u ++ (lastIdent w ++ '.' :: x) := by
          rw [hx, List.append_assoc]
        rw [hrewrite] at heq
        have heq : u ++ (callText (functionName next) (lastIdent w) ++ z) =
            u ++ (lastIdent w ++ '.' :: x) := by
          rw [heq, ← htext, ← hu]
        have heq := List.append_cancel_left heq
        have hcall : callText (functionName next) (lastIdent w) ++ z =
            functionName next ++ '(' :: ('\'' :: (lastIdent w ++ '\'' :: ')' :: z)) := by
          simp [callText]
        have hno : '(' ∉ lastIdent w := by
          intro hmem
          have := hw '(' (hu ▸ List.mem_append_right u hmem)
          cases this
        have hdot : '.' ∉ functionName next := by
          intro hmem
          have := halpha '.' hmem
          cases this
        rw [hcall] at heq
        have := (cut_eq hno hdot heq).2.1
        cases this
      · apply hcopied rfl (fun r hr => by cases hr)
        · exact rewrite_word hw (fun c hc => isWordByte_of_not_ident (hy c hc)) htrap
        · exact and_iff_right htrap

end DbSaci.Translate.Sequence
