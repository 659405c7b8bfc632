import DbSaci.Wire.Placeholders

set_option relaxedAutoImplicit false
set_option autoImplicit false

/-!
# Which texts are queries

A statement that is a query is answered by rows. Which statements are queries goes by their first
word, and for a `WITH` statement by words that change data, wherever they stand in the text.

## Main definitions

* `isQueryStatement` — what the server takes for a query.
* `tokens` — the words of a text outside of literals, quoted identifiers and comments.
* `isQuery` — the statement is a query, by its tokens.
* `TellsApart` — what the text must be like for the server to be right.

## Main results

* `isQueryStatement_eq_iff` — the server is right exactly for those texts.
-/

namespace DbSaci.Server

open Wire Text

/-! ### What the server does -/

/-- `is_ascii_whitespace`. -/
def isAsciiSpace (c : Char) : Bool :=
  c == ' ' || c == '\t' || c == '\n' || c == '\r' || c.toNat == 12

/-- White space, or the parenthesis of a query. -/
def opens (c : Char) : Bool := c == '(' || isSpace c

/-- The first word, up to white space, behind white space and parentheses. -/
def keywordOf (sql : List Char) : List Char :=
  let rest := (trimStart sql).dropWhile opens
  (rest.dropWhile isAsciiSpace).takeWhile fun c => !isAsciiSpace c

/-- The words that change data. -/
def dmlWords : List String := ["INSERT", "UPDATE", "DELETE", "MERGE"]

/-- One of the words occurs with a blank behind it, wherever that is. -/
def mentionsDml (sql : List Char) : Bool :=
  dmlWords.any fun word => (find (word.toList ++ [' ']) (upper sql)).isSome

/-- `is_query_statement`. -/
def isQueryStatement (sql : List Char) : Bool :=
  let keyword := upper (keywordOf sql)
  if keyword = "SELECT".toList ∨ keyword = "SHOW".toList ∨ keyword = "EXPLAIN".toList ∨
      keyword = "VALUES".toList then true
  else if keyword = "WITH".toList then !mentionsDml sql
  else false

/-! ### What a statement is -/

/-- A token: a word, a literal or quoted identifier, or another character. White space and comments
are blanks. -/
inductive Token
  | word (text : List Char)
  | quoted
  | other (c : Char)
  | blank
  deriving DecidableEq, Repr

/-- The characters of words. -/
def isWordChar (c : Char) : Bool :=
  c.isAlphanum || c == '_' || c == '$' || c == '#' || (128 ≤ c.toNat && !isSpace c)

/-- The token that starts with a character, and how much of what is behind it is part of it. -/
def nextSqlToken (c : Char) (s : List Char) : Token × ℕ :=
  if c = '\'' ∨ c = '"' ∨ c = '\x60' then (.quoted, quotedEnd c s)
  else if c = '-' ∧ s.head? = some '-' then (.blank, lineEnd s)
  else if c = '/' ∧ s.head? = some '*' then (.blank, commentEnd s)
  else if isSpace c = true then (.blank, 0)
  else if isWordChar c = true then
    (.word (c :: s.takeWhile isWordChar), (s.takeWhile isWordChar).length)
  else (.other c, 0)

/-- The tokens of a text. -/
def tokens (sql : List Char) : List Token := (scan nextSqlToken sql).filter (· ≠ .blank)

/-- The word a statement begins with, behind parentheses. -/
def leadingWord (sql : List Char) : Option (List Char) :=
  match (tokens sql).dropWhile (· = .other '(') with
  | .word text :: _ => some (upper text)
  | _ => none

/-- There is a word that changes data, but for the `UPDATE` of `FOR UPDATE`. -/
def hasDml (behindFor : Bool) : List Token → Bool
  | [] => false
  | .word text :: ts =>
    (dmlWords.any (fun word => upper text == word.toList) &&
      !(behindFor && upper text == "UPDATE".toList)) || hasDml (upper text == "FOR".toList) ts
  | _ :: ts => hasDml false ts

/-- The statement is a query, if it begins with `SELECT` or `WITH`. -/
def isQuery (sql : List Char) : Bool :=
  leadingWord sql = some "SELECT".toList || !hasDml false (tokens sql)

/-- A word is the first thing in a text but for white space and parentheses, and the end of the
text or white space is behind it. -/
def StandsBare (word : String) (sql : List Char) : Prop :=
  ∃ lead text rest, sql = lead ++ text ++ rest ∧ (∀ c ∈ lead, opens c = true) ∧
    upper text = word.toList ∧ ∀ c ∈ rest.head?, isAsciiSpace c = true

/-- **What tells queries apart.** `SELECT` stands bare. `WITH` does too, and there is a word that
changes data if and only if one is mentioned with a blank behind it; or there is such a word, and
`WITH` does not stand bare. -/
structure TellsApart (sql : List Char) : Prop where
  select : leadingWord sql = some "SELECT".toList → StandsBare "SELECT" sql
  bareWith : StandsBare "WITH" sql → hasDml false (tokens sql) = mentionsDml sql
  otherWith : leadingWord sql = some "WITH".toList → ¬ StandsBare "WITH" sql →
    hasDml false (tokens sql) = true

/-! ### Characters -/

section Characters

variable {c : Char}

/-- A character of a kind is none of another kind. -/
lemma ne_of_kind {kind : Char → Bool} {d : Char} (hc : kind c = true) (hd : kind d = false) :
    c ≠ d := by
  rintro rfl
  rw [hc] at hd
  cases hd

/-- The numbers of the letters. -/
lemma toNat_of_isAlpha (h : c.isAlpha = true) :
    65 ≤ c.toNat ∧ c.toNat ≤ 90 ∨ 97 ≤ c.toNat ∧ c.toNat ≤ 122 := by
  delta Char.isAlpha Char.isUpper Char.isLower at h
  simp only [Bool.or_eq_true, Bool.and_eq_true, decide_eq_true_eq, ge_iff_le,
    UInt32.le_iff_toNat_le] at h
  exact h

lemma opens_of_isAlpha (h : c.isAlpha = true) : opens c = false := by
  have hrange := toNat_of_isAlpha h
  have hparen : c ≠ '(' := ne_of_kind h (by decide)
  rw [opens, beq_false_of_ne hparen, Bool.false_or, ← Bool.not_eq_true, isSpace]
  simp only [Bool.or_eq_true, Bool.and_eq_true, decide_eq_true_eq, beq_iff_eq]
  omega

lemma isSpace_of_isAsciiSpace (h : isAsciiSpace c = true) : isSpace c = true := by
  simp only [isAsciiSpace, Bool.or_eq_true, beq_iff_eq] at h
  rcases h with (((rfl | rfl) | rfl) | rfl) | h
  · decide
  · decide
  · decide
  · decide
  · rw [isSpace, h]
    decide

lemma isAsciiSpace_of_opens (h : opens c = false) : isAsciiSpace c = false := by
  rw [opens, Bool.or_eq_false_iff] at h
  rw [← Bool.not_eq_true]
  intro hspace
  exact Bool.noConfusion (h.2.symm.trans (isSpace_of_isAsciiSpace hspace))

/-- A character of a kind that quotes and comments do not start with. -/
lemma nextSqlToken_of_kind {kind : Char → Bool} (hc : kind c = true)
    (hnot : ∀ d ∈ ['\'', '"', '\x60', '-', '/'], kind d = false) (s : List Char) :
    nextSqlToken c s =
      if isSpace c = true then (.blank, 0)
      else if isWordChar c = true then
        (.word (c :: s.takeWhile isWordChar), (s.takeWhile isWordChar).length)
      else (.other c, 0) := by
  have hne : ∀ d ∈ ['\'', '"', '\x60', '-', '/'], c ≠ d := fun d hd => ne_of_kind hc (hnot d hd)
  rw [nextSqlToken, if_neg, if_neg, if_neg]
  · exact fun h => hne '/' (by decide) h.1
  · exact fun h => hne '-' (by decide) h.1
  · rintro (h | h | h)
    · exact hne '\'' (by decide) h
    · exact hne '"' (by decide) h
    · exact hne '\x60' (by decide) h

lemma isWordChar_of_isSpace (h : isSpace c = true) : isWordChar c = false := by
  have hnot : c.isAlphanum = false := by
    rw [← Bool.not_eq_true, Char.isAlphanum, Bool.or_eq_true]
    rintro (halpha | hdigit)
    · have hopens := opens_of_isAlpha halpha
      rw [opens, h, Bool.or_true] at hopens
      cases hopens
    · rw [isSpace_of_isDigit hdigit] at h
      cases h
  have hne : ∀ d : Char, isSpace d = false → (c == d) = false :=
    fun d hd => beq_false_of_ne (ne_of_kind h hd)
  rw [isWordChar, hnot, hne '_' (by decide), hne '$' (by decide), hne '#' (by decide), h]
  simp only [Bool.not_true, Bool.and_false, Bool.or_false]

end Characters

/-! ### The first word -/

/-- A word of letters. -/
def Letters (text : List Char) : Prop := text ≠ [] ∧ ∀ c ∈ text, c.isAlpha = true

instance (text : List Char) : Decidable (Letters text) :=
  inferInstanceAs (Decidable (_ ∧ _))

section FirstWord

variable {text lead rest : List Char}

lemma Letters.of_upper (h : Letters (upper text)) : Letters text := by
  refine ⟨fun hnil => h.1 (by rw [hnil]; rfl), fun c hc => ?_⟩
  have hup : c.toUpper.isAlpha = true := h.2 _ (List.mem_map_of_mem hc)
  rcases toUpper_cases c with hsame | ⟨halpha, -⟩
  · rw [← hsame]
    exact hup
  · exact halpha

/-- The white space in front is among what is skipped. -/
lemma dropWhile_trimStart (s : List Char) : (trimStart s).dropWhile opens = s.dropWhile opens := by
  induction s with
  | nil => rfl
  | cons c s ih =>
    by_cases h : isSpace c = true
    · have hopens : opens c = true := by rw [opens, h, Bool.or_true]
      rw [trimStart, List.dropWhile_cons_of_pos h, List.dropWhile_cons_of_pos hopens]
      exact ih
    · rw [trimStart, List.dropWhile_cons_of_neg h]

/-- The first word, where what is in front is skipped at once. -/
lemma keywordOf_eq (sql : List Char) :
    keywordOf sql = (sql.dropWhile opens).takeWhile fun c => !isAsciiSpace c := by
  have hskip : (sql.dropWhile opens).dropWhile isAsciiSpace = sql.dropWhile opens := by
    cases hbody : sql.dropWhile opens with
    | nil => rfl
    | cons c body =>
      have hc := List.head?_dropWhile_not opens sql
      rw [hbody] at hc
      have hnot : opens c = false := by simpa using hc
      refine List.dropWhile_cons_of_neg ?_
      rw [isAsciiSpace_of_opens hnot]
      exact Bool.false_ne_true
  unfold keywordOf
  rw [dropWhile_trimStart]
  dsimp only
  rw [hskip]

/-- The first word of a text with a bare word in front. -/
lemma keywordOf_of_bare (htext : Letters text) (hlead : ∀ c ∈ lead, opens c = true)
    (hrest : ∀ c ∈ rest.head?, isAsciiSpace c = true) : keywordOf (lead ++ text ++ rest) = text := by
  obtain ⟨c, t, rfl⟩ := List.exists_cons_of_ne_nil htext.1
  have hnot : ¬ opens c = true := by
    rw [opens_of_isAlpha (htext.2 c List.mem_cons_self)]
    exact Bool.false_ne_true
  rw [keywordOf_eq, List.append_assoc, List.dropWhile_append_of_pos hlead, List.cons_append,
    List.dropWhile_cons_of_neg hnot, ← List.cons_append]
  refine takeWhile_append_of_head (fun d hd => ?_) fun d hd => ?_
  · rw [isAsciiSpace_of_opens (opens_of_isAlpha (htext.2 d hd))]
    rfl
  · rw [hrest d hd]
    rfl

/-- A parenthesis, or white space, is a token of its own or none. -/
lemma tokens_cons_of_opens {c : Char} (hc : opens c = true) (s : List Char) :
    tokens (c :: s) = (if c = '(' then [.other '('] else []) ++ tokens s := by
  by_cases hparen : c = '('
  · subst hparen
    have htoken : nextSqlToken '(' s = (.other '(', 0) := rfl
    rw [tokens, scan_cons, htoken, if_pos rfl]
    rfl
  · have hspace : isSpace c = true := by
      rw [opens, Bool.or_eq_true, beq_iff_eq] at hc
      exact hc.resolve_left hparen
    have htoken : nextSqlToken c s = (.blank, 0) := by
      rw [nextSqlToken_of_kind hspace (by decide), if_pos hspace]
    rw [tokens, scan_cons, htoken, if_neg hparen]
    rfl

/-- The tokens behind white space and parentheses. -/
lemma dropWhile_tokens (hlead : ∀ c ∈ lead, opens c = true) (s : List Char) :
    (tokens (lead ++ s)).dropWhile (· = .other '(') = (tokens s).dropWhile (· = .other '(') := by
  induction lead with
  | nil => rfl
  | cons c lead ih =>
    rw [List.cons_append, tokens_cons_of_opens (hlead c List.mem_cons_self),
      ← ih fun d hd => hlead d (List.mem_cons_of_mem _ hd)]
    split_ifs
    · rfl
    · rfl

/-- A word of letters is a token. -/
lemma nextSqlToken_of_letters {c : Char} {t : List Char} (h : Letters (c :: t))
    (hrest : ∀ c ∈ rest.head?, isAsciiSpace c = true) :
    (nextSqlToken c (t ++ rest)).1 = .word (c :: t) := by
  have hletter : c.isAlpha = true := h.2 c List.mem_cons_self
  have hword : ∀ d : Char, d.isAlpha = true → isWordChar d = true := by
    intro d hd
    rw [isWordChar, Char.isAlphanum, hd]
    rfl
  have hspace : ¬ isSpace c = true := by
    have hopens := opens_of_isAlpha hletter
    rw [opens, Bool.or_eq_false_iff] at hopens
    rw [hopens.2]
    exact Bool.false_ne_true
  have htake : (t ++ rest).takeWhile isWordChar = t := by
    refine takeWhile_append_of_head (fun d hd => ?_) fun d hd => ?_
    · exact hword d (h.2 d (List.mem_cons_of_mem _ hd))
    · exact isWordChar_of_isSpace (isSpace_of_isAsciiSpace (hrest d hd))
  rw [nextSqlToken_of_kind hletter (by decide), if_neg hspace, if_pos (hword c hletter), htake]

/-- The first token of a text with a bare word in front. -/
lemma leadingWord_of_bare (htext : Letters text) (hlead : ∀ c ∈ lead, opens c = true)
    (hrest : ∀ c ∈ rest.head?, isAsciiSpace c = true) :
    leadingWord (lead ++ text ++ rest) = some (upper text) := by
  obtain ⟨c, t, rfl⟩ := List.exists_cons_of_ne_nil htext.1
  have hfirst : tokens (c :: t ++ rest) = .word (c :: t) ::
      (scan nextSqlToken ((t ++ rest).drop (nextSqlToken c (t ++ rest)).2)).filter (· ≠ .blank) := by
    rw [List.cons_append, tokens, scan_cons, nextSqlToken_of_letters htext hrest]
    rfl
  rw [leadingWord, List.append_assoc, dropWhile_tokens hlead, hfirst]
  rfl

/-- **A word stands bare** exactly if the server takes it for the first word. -/
lemma standsBare_iff {word : String} (hword : Letters word.toList) (sql : List Char) :
    StandsBare word sql ↔ upper (keywordOf sql) = word.toList := by
  constructor
  · rintro ⟨lead, text, rest, rfl, hlead, htext, hrest⟩
    have hletters : Letters text := Letters.of_upper (htext ▸ hword)
    rw [keywordOf_of_bare hletters hlead hrest, htext]
  · intro hkeyword
    refine ⟨sql.takeWhile opens, keywordOf sql,
      (sql.dropWhile opens).dropWhile fun c => !isAsciiSpace c, ?_, ?_, hkeyword, ?_⟩
    · rw [keywordOf_eq, List.append_assoc, List.takeWhile_append_dropWhile,
        List.takeWhile_append_dropWhile]
    · exact fun c hc => List.mem_takeWhile_imp hc
    · intro c hc
      have hnot := List.head?_dropWhile_not (fun c => !isAsciiSpace c) (sql.dropWhile opens)
      rw [Option.mem_def.1 hc] at hnot
      simpa using hnot

/-- A word that stands bare is the first token. -/
lemma StandsBare.leadingWord {word : String} (hword : Letters word.toList) {sql : List Char}
    (h : StandsBare word sql) : leadingWord sql = some word.toList := by
  obtain ⟨lead, text, rest, rfl, hlead, htext, hrest⟩ := h
  rw [leadingWord_of_bare (Letters.of_upper (htext ▸ hword)) hlead hrest, htext]

end FirstWord

/-! ### Queries -/

/-- What is taken for a query begins with one of five words. -/
lemma isQueryStatement_iff (sql : List Char) : isQueryStatement sql = true ↔
    (StandsBare "SELECT" sql ∨ StandsBare "SHOW" sql ∨ StandsBare "EXPLAIN" sql ∨
      StandsBare "VALUES" sql) ∨ StandsBare "WITH" sql ∧ mentionsDml sql = false := by
  rw [standsBare_iff (by decide), standsBare_iff (by decide), standsBare_iff (by decide),
    standsBare_iff (by decide), standsBare_iff (by decide), isQueryStatement]
  split_ifs with hfirst hwith
  · exact iff_of_true rfl (.inl hfirst)
  · rw [Bool.not_eq_true']
    exact ⟨fun hmentions => .inr ⟨hwith, hmentions⟩,
      fun hboth => (hboth.resolve_left hfirst).2⟩
  · exact iff_of_false (fun h => by cases h) fun hboth => hwith (hboth.resolve_left hfirst).1

/-- Of a statement that begins with `SELECT` or `WITH`. -/
lemma isQueryStatement_iff_of_leading {sql : List Char}
    (h : leadingWord sql = some "SELECT".toList ∨ leadingWord sql = some "WITH".toList) :
    isQueryStatement sql = true ↔
      StandsBare "SELECT" sql ∨ StandsBare "WITH" sql ∧ mentionsDml sql = false := by
  have hother : ∀ {word : String}, Letters word.toList → StandsBare word sql →
      word.toList = "SELECT".toList ∨ word.toList = "WITH".toList := by
    intro word hword hbare
    rw [hbare.leadingWord hword] at h
    exact h.imp Option.some.inj Option.some.inj
  rw [isQueryStatement_iff]
  refine or_congr_left ⟨fun hfirst => ?_, .inl⟩
  rcases hfirst with hbare | hbare | hbare | hbare
  · exact hbare
  · exact absurd (hother (by decide) hbare) (by decide)
  · exact absurd (hother (by decide) hbare) (by decide)
  · exact absurd (hother (by decide) hbare) (by decide)

/-- **The server tells queries apart** exactly if `SELECT` and `WITH` stand bare and the text
mentions words that change data where it has them. -/
theorem isQueryStatement_eq_iff (sql : List Char)
    (h : leadingWord sql = some "SELECT".toList ∨ leadingWord sql = some "WITH".toList) :
    isQueryStatement sql = isQuery sql ↔ TellsApart sql := by
  have hanswer := isQueryStatement_iff_of_leading h
  have hne : some "SELECT".toList ≠ some "WITH".toList := by decide
  rcases h with hselect | hwith
  · have hnotWith : ¬ StandsBare "WITH" sql := by
      intro hbare
      rw [hbare.leadingWord (by decide)] at hselect
      exact hne hselect.symm
    have hquery : isQuery sql = true := by
      rw [isQuery, hselect]
      rfl
    rw [hquery, hanswer, or_iff_left fun hboth => hnotWith hboth.1]
    refine ⟨fun hbare => ⟨fun _ => hbare, fun hw => absurd hw hnotWith, fun hw => ?_⟩,
      fun htells => htells.select hselect⟩
    rw [hselect] at hw
    exact absurd hw hne
  · have hnotSelect : ¬ StandsBare "SELECT" sql := by
      intro hbare
      rw [hbare.leadingWord (by decide)] at hwith
      exact hne hwith
    have hquery : isQuery sql = !hasDml false (tokens sql) := by
      rw [isQuery, hwith]
      rfl
    have hselect : leadingWord sql ≠ some "SELECT".toList := by
      rw [hwith]
      exact hne.symm
    rw [or_iff_right hnotSelect] at hanswer
    rw [hquery]
    by_cases hbare : StandsBare "WITH" sql
    · have hmentions : isQueryStatement sql = !mentionsDml sql := by
        rw [Bool.eq_iff_iff, hanswer, and_iff_right hbare, Bool.not_eq_true']
      rw [hmentions, Bool.not_inj_iff]
      exact ⟨fun hsame => ⟨fun hs => absurd hs hselect, fun _ => hsame.symm,
        fun _ hnot => absurd hbare hnot⟩, fun htells => (htells.bareWith hbare).symm⟩
    · have hfalse : isQueryStatement sql = false := by
        rw [← Bool.not_eq_true, hanswer]
        exact fun hboth => hbare hboth.1
      rw [hfalse, eq_comm, Bool.not_eq_false']
      exact ⟨fun hdml => ⟨fun hs => absurd hs hselect, fun hb => absurd hb hbare, fun _ _ => hdml⟩,
        fun htells => htells.otherWith hwith hbare⟩

/-- A query with a common table expression. -/
theorem withQuery_told : isQueryStatement "with a as (select 1) select * from a".toList =
    isQuery "with a as (select 1) select * from a".toList := by
  refine (isQueryStatement_eq_iff _ (.inr (by decide +kernel))).2 ⟨fun hs => ?_, fun _ => ?_,
    fun _ hnot => ?_⟩
  · exact absurd hs (by decide +kernel)
  · decide +kernel
  · exact absurd ((standsBare_iff (by decide) _).2 (by decide +kernel)) hnot

/-- A literal that ends in a word that changes data. -/
theorem literal_misleads : ∃ sql, leadingWord sql = some "WITH".toList ∧
    isQueryStatement sql ≠ isQuery sql :=
  ⟨"with a as (select 'no update ') select * from a".toList, by decide +kernel, by decide +kernel⟩

end DbSaci.Server
