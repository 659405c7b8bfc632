import DbSaci.Translate.ClauseItems

set_option relaxedAutoImplicit false
set_option autoImplicit false

/-!
# Tokens of Oracle's SQL

A statement is a list of tokens: words, other characters, string literals, literals with a delimiter
of their own, quoted identifiers and comments. The next characters decide whether a token is one of
the text.

## Main definitions

* `Lexeme` — a token, with `Lexeme.text` how it is written.
* `Lexed` — the tokens are those of their text.

## Main results

* `lexemesText_cons`, `lexemesText_append` — the text of a list of tokens.
* `reads_sym`, `reads_word` — what is a token whatever comes behind it.
* `lexed_of_plain` — tokens without quotes and comments.
-/

namespace DbSaci.Sql

open Text
open DbSaci.Translate (Doubled)
open DbSaci.Translate.Physical (isNameChar)

/-- A token of Oracle's SQL. -/
inductive Lexeme where
  | word (w : List Char)
  | sym (c : Char)
  | string (body : List Char)
  | alternative (mark : List Char) (delim : Char) (content : List Char)
  | identifier (body : List Char)
  | lineComment (body : List Char)
  | blockComment (body : List Char)

namespace Lexeme

/-- What closes a literal that a delimiter opens. -/
def closer (delim : Char) : Char :=
  if delim = '[' then ']'
  else if delim = '{' then '}'
  else if delim = '<' then '>'
  else if delim = '(' then ')'
  else delim

/-- How a token is written. -/
def text : Lexeme → List Char
  | word w => w
  | sym c => [c]
  | string body => '\'' :: (body ++ ['\''])
  | alternative mark delim content =>
    mark ++ '\'' :: delim :: (content ++ [closer delim, '\''])
  | identifier body => '"' :: (body ++ ['"'])
  | lineComment body => '-' :: '-' :: body
  | blockComment body => '/' :: '*' :: (body ++ ['*', '/'])

/-- The token is one of the text, with some text behind it. -/
def Reads (rest : List Char) : Lexeme → Prop
  | word w => w ≠ [] ∧ (∀ c ∈ w, isNameChar c = true) ∧ (∀ c ∈ rest.head?, isNameChar c = false) ∧
      (rest.head? = some '\'' → upper w ∉ ["Q".toList, "NQ".toList])
  | sym c => isNameChar c = false ∧ c ≠ '\'' ∧ c ≠ '"' ∧ (c = '-' → rest.head? ≠ some '-') ∧
      (c = '/' → rest.head? ≠ some '*')
  | string body => Doubled '\'' body ∧ rest.head? ≠ some '\''
  | alternative mark delim content => upper mark ∈ ["Q".toList, "NQ".toList] ∧
      delim ∉ [' ', '\t', '\r'] ∧ ¬ [closer delim, '\''] <:+: content ++ [closer delim]
  | identifier body => '"' ∉ body
  | lineComment body => '\n' ∉ body ∧ ∀ c ∈ rest.head?, c = '\n'
  | blockComment body => ¬ ['*', '/'] <:+: body ++ ['*']

/-- A string literal, with whatever delimiter. -/
def IsLiteral : Lexeme → Prop
  | string _ => True
  | alternative _ _ _ => True
  | _ => False

instance : DecidablePred IsLiteral := fun t => by
  cases t <;> unfold IsLiteral <;> infer_instance

end Lexeme

/-- The text of a list of tokens. -/
def lexemesText (ts : List Lexeme) : List Char := ts.flatMap Lexeme.text

/-- The tokens are those of their text. -/
def Lexed : List Lexeme → Prop
  | [] => True
  | t :: ts => t.Reads (lexemesText ts) ∧ Lexed ts

@[simp]
lemma lexemesText_nil : lexemesText [] = [] := rfl

lemma lexemesText_cons (t : Lexeme) (ts : List Lexeme) :
    lexemesText (t :: ts) = t.text ++ lexemesText ts :=
  List.flatMap_cons

lemma lexemesText_append (ts us : List Lexeme) :
    lexemesText (ts ++ us) = lexemesText ts ++ lexemesText us :=
  List.flatMap_append

/-- A token that is read is not empty. -/
lemma Lexeme.exists_cons {t : Lexeme} {rest : List Char} (h : t.Reads rest) :
    ∃ c s, t.text = c :: s := by
  cases t with
  | word w => exact List.exists_cons_of_ne_nil h.1
  | sym c => exact ⟨c, [], rfl⟩
  | string body => exact ⟨'\'', _, rfl⟩
  | alternative mark delim content =>
    cases mark with
    | nil =>
      have hmark := h.1
      simp at hmark
    | cons c s => exact ⟨c, _, rfl⟩
  | identifier body => exact ⟨'"', _, rfl⟩
  | lineComment body => exact ⟨'-', _, rfl⟩
  | blockComment body => exact ⟨'/', _, rfl⟩

/-- The letters that a literal with a delimiter starts with. -/
lemma Lexeme.exists_mark {mark : List Char} (h : upper mark ∈ ["Q".toList, "NQ".toList]) :
    ∃ c s, mark = c :: s ∧ c.toUpper ∈ ['Q', 'N'] := by
  cases mark with
  | nil => simp at h
  | cons c s =>
    refine ⟨c, s, rfl, ?_⟩
    simp only [List.mem_cons, List.not_mem_nil, or_false, upper_cons] at h ⊢
    rcases h with h | h
    · exact Or.inl (List.cons.inj h).1
    · exact Or.inr (List.cons.inj h).1

/-- A token that starts with a character that opens nothing. -/
lemma Lexeme.eq_sym_of_head {t : Lexeme} {c : Char} {s rest : List Char} (h : t.Reads rest)
    (htext : t.text = c :: s) (hname : isNameChar c = false) (hup : c.toUpper ∉ ['Q', 'N'])
    (hc : c ∉ ['\'', '"', '-', '/']) : t = .sym c := by
  simp only [List.mem_cons, List.not_mem_nil, or_false, not_or] at hc
  obtain ⟨hquote, hquotes, hdash, hslash⟩ := hc
  cases t with
  | word w =>
    have hw : w = c :: s := htext
    have htrue := h.2.1 c (hw ▸ List.mem_cons_self)
    rw [hname] at htrue
    cases htrue
  | sym d => exact congrArg Lexeme.sym (List.cons.inj htext).1
  | string body => exact absurd (List.cons.inj htext).1.symm hquote
  | alternative mark delim content =>
    obtain ⟨d, s', rfl, hd⟩ := exists_mark h.1
    rw [(List.cons.inj htext).1] at hd
    exact absurd hd hup
  | identifier body => exact absurd (List.cons.inj htext).1.symm hquotes
  | lineComment body => exact absurd (List.cons.inj htext).1.symm hdash
  | blockComment body => exact absurd (List.cons.inj htext).1.symm hslash

/-- A token that starts with a letter. -/
lemma Lexeme.exists_word_of_head {t : Lexeme} {c : Char} {s rest : List Char} (h : t.Reads rest)
    (htext : t.text = c :: s) (hname : isNameChar c = true) (hup : c.toUpper ∉ ['Q', 'N']) :
    ∃ w, t = .word w := by
  have hne : ∀ d, isNameChar d = false → d ≠ c := by
    rintro d hd rfl
    rw [hname] at hd
    cases hd
  cases t with
  | word w => exact ⟨w, rfl⟩
  | sym d => exact absurd (List.cons.inj htext).1 (hne d h.1)
  | string body => exact absurd (List.cons.inj htext).1 (hne _ rfl)
  | alternative mark delim content =>
    obtain ⟨d, s', rfl, hd⟩ := exists_mark h.1
    rw [(List.cons.inj htext).1] at hd
    exact absurd hd hup
  | identifier body => exact absurd (List.cons.inj htext).1 (hne _ rfl)
  | lineComment body => exact absurd (List.cons.inj htext).1 (hne _ rfl)
  | blockComment body => exact absurd (List.cons.inj htext).1 (hne _ rfl)

/-- A word goes as far as there are characters of names. -/
lemma takeWhile_lexemes {w rest : List Char} (h : (Lexeme.word w).Reads rest) :
    (w ++ rest).takeWhile isNameChar = w := by
  rw [List.takeWhile_append_of_pos h.2.1]
  cases rest with
  | nil => simp
  | cons c rest =>
    have hc : isNameChar c = false := h.2.2.1 c rfl
    rw [List.takeWhile_cons_of_neg (by rw [hc]; exact Bool.false_ne_true), List.append_nil]

/-- A character that opens nothing. -/
lemma reads_sym {c : Char} {rest : List Char} (hname : isNameChar c = false)
    (h : c ∉ ['\'', '"', '-', '/']) : (Lexeme.sym c).Reads rest := by
  simp only [List.mem_cons, List.not_mem_nil, or_false, not_or] at h
  obtain ⟨hquote, hquotes, hdash, hslash⟩ := h
  exact ⟨hname, hquote, hquotes, fun hc => absurd hc hdash, fun hc => absurd hc hslash⟩

/-- A word with a character behind it that is part of no name and opens no literal. -/
lemma reads_word {w rest : List Char} (hne : w ≠ []) (hw : w.all isNameChar = true)
    (h : (rest.head?.all fun c => !isNameChar c && c != '\'') = true) :
    (Lexeme.word w).Reads rest := by
  refine ⟨hne, fun c hc => List.all_eq_true.1 hw c hc, fun c hc => ?_, fun hq => ?_⟩
  · rw [hc, Option.all_some, Bool.and_eq_true, Bool.not_eq_true'] at h
    exact h.1
  · rw [hq] at h
    exact absurd h (by decide)

/-- Words and characters that open nothing, without two words side by side. -/
def plainLexed : List Lexeme → Bool
  | [] => true
  | .word w :: ts =>
    !w.isEmpty && w.all isNameChar && (match ts with | .word _ :: _ => false | _ => true) &&
      plainLexed ts
  | .sym c :: ts => !isNameChar c && !(['\'', '"', '-', '/'].contains c) && plainLexed ts
  | _ => false

/-- **Such tokens are those of their text.** -/
theorem lexed_of_plain {ts : List Lexeme} (h : plainLexed ts = true) : Lexed ts := by
  induction ts with
  | nil => trivial
  | cons t ts ih =>
    cases t with
    | word w =>
      simp only [plainLexed, Bool.and_eq_true, Bool.not_eq_true', List.isEmpty_eq_false_iff] at h
      obtain ⟨⟨⟨hne, hw⟩, hnext⟩, hts⟩ := h
      refine ⟨reads_word hne hw ?_, ih hts⟩
      cases ts with
      | nil => rfl
      | cons t ts =>
        cases t with
        | word w => cases hnext
        | sym c =>
          obtain ⟨hname, hquote, -⟩ := (ih hts).1
          rw [lexemesText_cons, Lexeme.text, List.singleton_append, List.head?_cons,
            Option.all_some, hname, bne_iff_ne.2 hquote]
          rfl
        | string body => cases hts
        | alternative mark delim content => cases hts
        | identifier body => cases hts
        | lineComment body => cases hts
        | blockComment body => cases hts
    | sym c =>
      simp only [plainLexed, Bool.and_eq_true, Bool.not_eq_true'] at h
      obtain ⟨⟨hname, hc⟩, hts⟩ := h
      refine ⟨reads_sym hname ?_, ih hts⟩
      rw [← List.contains_iff_mem, hc]
      exact Bool.false_ne_true
    | string body => cases h
    | alternative mark delim content => cases h
    | identifier body => cases h
    | lineComment body => cases h
    | blockComment body => cases h

end DbSaci.Sql
