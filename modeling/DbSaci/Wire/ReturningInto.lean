import DbSaci.Library.Quotes
import DbSaci.Wire.SqlTokens

set_option relaxedAutoImplicit false
set_option autoImplicit false

/-!
# RETURNING INTO

A statement may end with a clause `RETURNING e, … INTO :a, …`. The backend gets it without `INTO`
and the bind list. The scanner that looks for the two words passes over quoted parts, but neither
over comments nor over parentheses, and counts the colons behind `INTO`.

## Main definitions

* `splitReturningInto`, `splitTopLevelCommas` — what the code does.
* `ReturningClause` — a statement with such a clause, by its tokens.
* `SplitExactly` — the clause is split off exactly if there is one.
* `Reading` — where the code finds the two words.
* `ReadRight` — what the code reads is the clause.

## Main results

* `splitReturningInto_eq_some_iff` — what is split off, by the places of the words.
* `splitExactly_iff` — which statements are split exactly.
-/

namespace DbSaci.Wire

open Text Quotes

/-! ### The code -/

/-- A statement without `INTO`, and the numbers of the placeholders and of the expressions. -/
structure ReturningInto where
  sqlWithoutInto : List Char
  outBindCount : ℕ
  returningExprCount : ℕ
  deriving DecidableEq, Repr

/-- `is_ascii_whitespace`. -/
def isAsciiWhitespace (c : Char) : Bool :=
  c == ' ' || c == '\t' || c == '\n' || c == '\x0C' || c == '\r'

/-- `RETURNING` stands at a place, between characters that are none of a name. -/
def returningAt (prev : Option Char) (s : List Char) : Bool :=
  upper (s.take 9) == "RETURNING".toList && prev.all (fun c => !isNameChar c) &&
    (s.drop 9).head?.all (fun c => !isNameChar c)

/-- `INTO` stands at a place, at the start or behind white space, and in front of white space. -/
def intoAt (prev : Option Char) (s : List Char) : Bool :=
  upper (s.take 4) == "INTO".toList && prev.all isAsciiWhitespace &&
    (s.drop 4).head?.any isAsciiWhitespace

/-- The parts of a text between commas, behind the part that has been read. -/
def splitCommas : Option Char → ℤ → List Char → List Char → List (List Char)
  | _, _, part, [] => if trim part = [] then [] else [trim part]
  | some q, depth, part, c :: s =>
    splitCommas (if c = q then none else some q) depth (part ++ [c]) s
  | none, depth, part, c :: s =>
    if isQuote c then splitCommas (some c) depth (part ++ [c]) s
    else if c = '(' then splitCommas none (depth + 1) (part ++ [c]) s
    else if c = ')' then splitCommas none (depth - 1) (part ++ [c]) s
    else if c = ',' ∧ depth = 0 then trim part :: splitCommas none depth [] s
    else splitCommas none depth (part ++ [c]) s

/-- `split_top_level_commas`. -/
def splitTopLevelCommas (s : List Char) : List (List Char) := splitCommas none 0 [] s

/-- `split_returning_into`: the last `RETURNING` and the first `INTO` behind it, outside quotes. -/
def splitReturningInto (sql : List Char) : Option ReturningInto :=
  match (placesOf returningAt none none 0 sql).getLast? with
  | none => none
  | some rAt =>
    let afterReturning := sql.drop (rAt + 9)
    match (placesOf intoAt none none 0 afterReturning).head? with
    | none => none
    | some intoRel =>
      let exprs := trim (afterReturning.take intoRel)
      let bindList := afterReturning.drop (intoRel + 4)
      if bindList.count ':' = 0 then none
      else some
        { sqlWithoutInto := sql.take rAt ++ ("RETURNING ".toList ++ exprs)
          outBindCount := bindList.count ':'
          returningExprCount := max (splitTopLevelCommas exprs).length 1 }

/-! ### The clause -/

/-- A token. -/
abbrev SqlToken := SqlKind × List Char

/-- How many parentheses are open, one token on. -/
def depthStep (depth : ℤ) (token : SqlToken) : ℤ :=
  if token = (.symbol, ['(']) then depth + 1
  else if token = (.symbol, [')']) then depth - 1
  else depth

/-- How many parentheses are open behind some tokens. -/
def tokenDepth (ts : List SqlToken) : ℤ := ts.foldl depthStep 0

/-- One of some tokens that is in no parentheses is of a kind. -/
def atTop (p : SqlToken → Bool) : ℤ → List SqlToken → Bool
  | _, [] => false
  | depth, token :: ts => (decide (depth = 0) && p token) || atTop p (depthStep depth token) ts

/-- A comma. -/
def commaToken : SqlToken := (.symbol, [','])

/-- A token is a word. -/
def isWord (word : String) (token : SqlToken) : Bool :=
  token.1 == .word && upper token.2 == word.toList

/-- A token is white space or a comment. -/
def isBlankToken (token : SqlToken) : Bool :=
  token.1 == .comment || (token.1 == .symbol && token.2.all isSpace)

/-- An expression of the clause: its parentheses are closed, and outside of them there is no comma
and neither of the two words. -/
structure IsReturned (expr : List Char) : Prop where
  depth : tokenDepth (sqlTokens expr) = 0
  top : atTop (fun token => token == commaToken || isWord "RETURNING" token ||
    isWord "INTO" token) 0 (sqlTokens expr) = false
  some : ∃ token ∈ sqlTokens expr, isBlankToken token = false

/-- A statement with a clause `RETURNING e, … INTO :a, …`: the text in front of the clause, the two
words, the expressions, and the text behind `INTO`, which starts with the bind list. -/
structure ReturningClause where
  pre : List Char
  returning : List Char
  exprs : List (List Char)
  into : List Char
  names : List (List Char)
  tail : List Char
  returning_word : upper returning = "RETURNING".toList
  into_word : upper into = "INTO".toList
  tokens : sqlTokens (pre ++ (returning ++ ([','].intercalate exprs ++ (into ++ tail)))) =
    sqlTokens pre ++ (.word, returning) ::
      ([commaToken].intercalate (exprs.map sqlTokens) ++ (.word, into) :: sqlTokens tail)
  pre_depth : tokenDepth (sqlTokens pre) = 0
  exprs_ne : exprs ≠ []
  returned : ∀ expr ∈ exprs, IsReturned expr
  names_ne : names ≠ []
  binds : ∃ rest, rest.head? ≠ some commaToken ∧
    (sqlTokens tail).filter (fun token => !isBlankToken token) =
      [commaToken].intercalate (names.map fun name => [(.placeholder, ':' :: name)]) ++ rest
  tail_top : atTop (isWord "RETURNING") 0 (sqlTokens tail) = false

namespace ReturningClause

variable (c : ReturningClause)

/-- The expressions with the commas between them. -/
def exprText : List Char := [','].intercalate c.exprs

/-- The text of the statement. -/
def text : List Char := c.pre ++ (c.returning ++ (c.exprText ++ (c.into ++ c.tail)))

/-- What is split off: the statement up to its last expression, and how many placeholders and
expressions there are. -/
def split : ReturningInto :=
  ⟨c.pre ++ ("RETURNING ".toList ++ trim c.exprText), c.names.length, c.exprs.length⟩

end ReturningClause

/-- The clause is split off exactly if there is one, and nothing is if there is none. -/
def SplitExactly (sql : List Char) : Prop :=
  (∀ c : ReturningClause, c.text = sql → splitReturningInto sql = some c.split) ∧
    ((∀ c : ReturningClause, c.text ≠ sql) → splitReturningInto sql = none)

/-! ### What the code reads -/

/-- The text of a statement where the code finds the two words: the last `RETURNING` outside quotes,
and the first `INTO` outside quotes behind it. -/
structure Reading (a returning exprs into b : List Char) : Prop where
  returning_last : OccursLast returningAt a (returning ++ (exprs ++ (into ++ b)))
  returning_length : returning.length = 9
  into_first : OccursFirst intoAt exprs (into ++ b)
  into_length : into.length = 4

/-- `RETURNING` in capitals, one blank, and something else behind it. -/
def Plain (returning exprs : List Char) : Prop :=
  returning = "RETURNING".toList ∧ ∃ c s, exprs = ' ' :: c :: s ∧ isSpace c = false

/-- The commas outside quotes and parentheses, and what stands behind the last one. -/
def commasSeen : Option Char → ℤ → List Char → List Char → ℕ × List Char
  | _, _, part, [] => (0, part)
  | some q, depth, part, c :: s => commasSeen (if c = q then none else some q) depth (part ++ [c]) s
  | none, depth, part, c :: s =>
    if c = ',' ∧ depth = 0 then
      ((commasSeen none 0 [] s).1 + 1, (commasSeen none 0 [] s).2)
    else
      commasSeen (if isQuote c then some c else none)
        (if c = '(' then depth + 1 else if c = ')' then depth - 1 else depth) (part ++ [c]) s

/-- How many parts the commas outside quotes and parentheses make of a text: a last part of white
space does not count. -/
def partsSeen (exprs : List Char) : ℕ :=
  (commasSeen none 0 [] exprs).1 + if trim (commasSeen none 0 [] exprs).2 = [] then 0 else 1

/-- What the code reads of a statement with a clause is that clause, or splits the same text off. -/
def ReturningClause.ReadRight (c : ReturningClause) : Prop :=
  ∃ a returning exprs, a ++ (returning ++ exprs) = c.pre ++ (c.returning ++ c.exprText) ∧
    Reading a returning exprs c.into c.tail ∧
    (a = c.pre ∨ Plain returning exprs ∧ Plain c.returning c.exprText) ∧
    c.tail.count ':' = c.names.length ∧ max (partsSeen (trim exprs)) 1 = c.exprs.length

/-- The code reads a clause in a statement: there are the two words, and a colon behind them. -/
def ReadsClause (sql : List Char) : Prop :=
  ∃ a returning exprs into b, sql = a ++ (returning ++ (exprs ++ (into ++ b))) ∧
    Reading a returning exprs into b ∧ b.count ':' ≠ 0

/-- What the code reads of a statement is its clause, if it has one. -/
def ReadRight (sql : List Char) : Prop :=
  (∀ c : ReturningClause, c.text = sql → c.ReadRight) ∧
    ((∀ c : ReturningClause, c.text ≠ sql) → ¬ ReadsClause sql)

lemma length_splitCommas (quote : Option Char) (depth : ℤ) (part s : List Char) :
    (splitCommas quote depth part s).length =
      (commasSeen quote depth part s).1 +
        if trim (commasSeen quote depth part s).2 = [] then 0 else 1 := by
  induction s generalizing quote depth part with
  | nil =>
    rw [splitCommas, commasSeen]
    split_ifs with hblank
    · rfl
    · rfl
  | cons c s ih =>
    cases quote with
    | some q => rw [splitCommas, commasSeen, ih]
    | none =>
      rw [splitCommas, commasSeen]
      by_cases hcomma : c = ',' ∧ depth = 0
      · obtain ⟨rfl, rfl⟩ := hcomma
        rw [if_neg (by decide), if_neg (by decide), if_neg (by decide), if_pos ⟨rfl, rfl⟩,
          if_pos ⟨rfl, rfl⟩, List.length_cons, ih, Nat.add_right_comm]
      · rw [if_neg hcomma, if_neg hcomma, ← ih]
        by_cases hquote : isQuote c = true
        · have hne : ∀ d, isQuote d = false → c ≠ d := by
            rintro d hd rfl
            rw [hquote] at hd
            cases hd
          rw [if_pos hquote, if_pos hquote, if_neg (hne '(' rfl), if_neg (hne ')' rfl)]
        · rw [if_neg hquote, if_neg hquote]
          split_ifs
          · rfl
          · rfl
          · rfl

lemma length_splitTopLevelCommas (s : List Char) : (splitTopLevelCommas s).length = partsSeen s :=
  length_splitCommas none 0 [] s

section Read

variable {sql a returning exprs into b : List Char}

lemma upper_of_returningAt {prev : Option Char} {s : List Char} (h : returningAt prev s = true) :
    upper (s.take 9) = "RETURNING".toList := by
  rw [returningAt, Bool.and_eq_true, Bool.and_eq_true, beq_iff_eq] at h
  exact h.1.1

lemma upper_of_intoAt {prev : Option Char} {s : List Char} (h : intoAt prev s = true) :
    upper (s.take 4) = "INTO".toList := by
  rw [intoAt, Bool.and_eq_true, Bool.and_eq_true, beq_iff_eq] at h
  exact h.1.1

lemma Reading.upper_returning (h : Reading a returning exprs into b) :
    upper returning = "RETURNING".toList := by
  have hupper := upper_of_returningAt h.returning_last.1.2.2
  rwa [List.take_left' h.returning_length] at hupper

lemma Reading.upper_into (h : Reading a returning exprs into b) : upper into = "INTO".toList := by
  have hupper := upper_of_intoAt h.into_first.1.2.2
  rwa [List.take_left' h.into_length] at hupper

/-- **What is split off**, by the places of the two words. -/
theorem splitReturningInto_eq_some_iff {r : ReturningInto} :
    splitReturningInto sql = some r ↔
      ∃ a returning exprs into b, sql = a ++ (returning ++ (exprs ++ (into ++ b))) ∧
        Reading a returning exprs into b ∧ b.count ':' ≠ 0 ∧
        r = ⟨a ++ ("RETURNING ".toList ++ trim exprs), b.count ':',
          max (partsSeen (trim exprs)) 1⟩ := by
  constructor
  · intro h
    rw [splitReturningInto] at h
    cases hlast : (placesOf returningAt none none 0 sql).getLast? with
    | none =>
      rw [hlast] at h
      cases h
    | some rAt =>
      obtain ⟨a, s, rfl, rfl, hreturning⟩ := getLast?_placesOf.1 hlast
      rw [hlast] at h
      dsimp only at h
      have hk := congrArg List.length (upper_of_returningAt hreturning.1.2.2)
      rw [length_upper] at hk
      rw [← List.drop_drop, List.drop_left, List.take_left] at h
      cases hfirst : (placesOf intoAt none none 0 (s.drop 9)).head? with
      | none =>
        rw [hfirst] at h
        cases h
      | some intoRel =>
        obtain ⟨exprs, t, hs, rfl, hinto⟩ := head?_placesOf.1 hfirst
        rw [hfirst] at h
        dsimp only at h
        have hi := congrArg List.length (upper_of_intoAt hinto.1.2.2)
        rw [length_upper] at hi
        rw [hs, ← List.drop_drop, List.drop_left, List.take_left, length_splitTopLevelCommas] at h
        split_ifs at h with hcount
        have hsplit : s = s.take 9 ++ (exprs ++ (t.take 4 ++ t.drop 4)) := by
          rw [List.take_append_drop, ← hs, List.take_append_drop]
        refine ⟨a, s.take 9, exprs, t.take 4, t.drop 4, by rw [← hsplit], ⟨?_, hk, ?_, hi⟩, hcount,
          (Option.some.inj h).symm⟩
        · rwa [← hsplit]
        · rwa [List.take_append_drop]
  · rintro ⟨a, returning, exprs, into, b, rfl, hread, hcount, rfl⟩
    have hlast := getLast?_placesOf.2 ⟨a, _, rfl, rfl, hread.returning_last⟩
    have hfirst := head?_placesOf.2 ⟨exprs, _, rfl, rfl, hread.into_first⟩
    rw [splitReturningInto, hlast]
    dsimp only
    rw [← List.drop_drop, List.drop_left, List.take_left, List.drop_left' hread.returning_length,
      hfirst]
    dsimp only
    rw [← List.drop_drop, List.drop_left, List.take_left, List.drop_left' hread.into_length,
      if_neg hcount, length_splitTopLevelCommas]

/-- Nothing is split off exactly if no clause is read. -/
theorem splitReturningInto_eq_none_iff : splitReturningInto sql = none ↔ ¬ ReadsClause sql := by
  constructor
  · rintro hnone ⟨a, returning, exprs, into, b, hsql, hread, hcount⟩
    have hsome := splitReturningInto_eq_some_iff.2
      ⟨a, returning, exprs, into, b, hsql, hread, hcount, rfl⟩
    rw [hnone] at hsome
    cases hsome
  · intro hnot
    cases hsplit : splitReturningInto sql with
    | none => rfl
    | some r =>
      obtain ⟨a, returning, exprs, into, b, hsql, hread, hcount, -⟩ :=
        splitReturningInto_eq_some_iff.1 hsplit
      exact absurd ⟨a, returning, exprs, into, b, hsql, hread, hcount⟩ hnot

end Read

/-! ### Where the same text is split off -/

lemma solid_returning : ∀ c ∈ "RETURNING".toList, isSpace c = false := by decide

/-- With one blank behind it, the word is split off as it stands. -/
lemma Plain.text_eq {returning exprs : List Char} (h : Plain returning exprs) (a : List Char) :
    a ++ ("RETURNING ".toList ++ trim exprs) = trimEnd (a ++ (returning ++ exprs)) := by
  obtain ⟨rfl, c, s, rfl, hc⟩ := h
  have hblank : trimEnd (' ' :: c :: s) = ' ' :: trimEnd (c :: s) :=
    (trimEnd_append rfl hc s : trimEnd ([' ', c] ++ s) = [' ', c] ++ trimEnd s).trans
      (congrArg (' ' :: ·) (trimEnd_append rfl hc s : trimEnd ([c] ++ s) = [c] ++ trimEnd s)).symm
  have hlast : (a ++ "RETURNING".toList).getLast? = some 'G' :=
    List.getLast?_append_of_ne_nil a (by decide)
  rw [← List.append_assoc a "RETURNING".toList, trimEnd_append hlast rfl, trim_blank_cons hc,
    hblank, List.append_assoc]
  rfl

/-- `RETURNING` does not overlap itself. -/
lemma returning_overlap {n : ℕ} (h : "RETURNING".toList.drop n <+: "RETURNING".toList)
    (hn : n < 9) : n = 0 := by
  have hall : ∀ n < 9, "RETURNING".toList.drop n <+: "RETURNING".toList → n = 0 := by decide
  exact hall n hn h

section Split

variable {a k f A K E s t : List Char} {c d : Char}

/-- The second of two places is behind the first word. -/
lemma behind_of_lt (hsql : a ++ (k ++ (f ++ c :: s)) = A ++ (K ++ (E ++ d :: t)))
    (hk : upper k = "RETURNING".toList) (hK : upper K = "RETURNING".toList)
    (hlt : a.length < A.length) :
    ∃ x, A = a ++ (k ++ x) ∧ f ++ c :: s = x ++ (K ++ (E ++ d :: t)) := by
  have hklen : k.length = 9 := by rw [← length_upper, hk]; rfl
  have hKlen : K.length = 9 := by rw [← length_upper, hK]; rfl
  obtain ⟨r, rfl, hr⟩ : ∃ r, A = a ++ r ∧ k ++ (f ++ c :: s) = r ++ (K ++ (E ++ d :: t)) := by
    rcases List.append_eq_append_iff.1 hsql with hfirst | ⟨r, rfl, -⟩
    · exact hfirst
    · rw [List.length_append] at hlt
      omega
  rw [List.length_append] at hlt
  rcases List.append_eq_append_iff.1 hr with ⟨x, rfl, hx⟩ | ⟨r', rfl, hr'⟩
  · exact ⟨x, rfl, hx⟩
  · cases r' with
    | nil => exact ⟨[], by rw [List.append_nil, List.append_nil], hr'.symm⟩
    | cons e r' =>
      -- the two words would overlap
      have hfront : e :: r' <+: K ++ (E ++ d :: t) := ⟨_, hr'.symm⟩
      rw [List.length_append, List.length_cons] at hklen
      have hprefix : e :: r' <+: K :=
        List.prefix_of_prefix_length_le hfront (List.prefix_append _ _) (by
          rw [List.length_cons]
          omega)
      have hdrop : "RETURNING".toList.drop r.length = upper (e :: r') := by
        rw [← hk, upper_append, List.drop_left' (length_upper r)]
      have hover : "RETURNING".toList.drop r.length <+: "RETURNING".toList := by
        rw [hdrop, ← hK]
        exact hprefix.map Char.toUpper
      have hnil := returning_overlap hover (by omega)
      omega

/-- A place behind another one splits the same text off only if nothing is changed at either. -/
lemma plain_of_behind {x : List Char} (hx : f ++ c :: s = x ++ (K ++ (E ++ d :: t)))
    (hk : k.length = 9) (hK : upper K = "RETURNING".toList) (hc : isSpace c = false)
    (hd : isSpace d = false)
    (htext : "RETURNING ".toList ++ trim f = k ++ (x ++ ("RETURNING ".toList ++ trim E))) :
    c :: s = d :: t ∧ Plain k f ∧ Plain K E := by
  have hKlen : K.length = 9 := by rw [← length_upper, hK]; rfl
  have hKnot := not_isSpace_of_upper solid_returning hK
  obtain ⟨hcapital, hrest⟩ := List.append_inj
    (show "RETURNING".toList ++ ' ' :: trim f = k ++ (x ++ ("RETURNING ".toList ++ trim E)) from
      htext) hk.symm
  obtain ⟨x, rfl⟩ : ∃ x', x = ' ' :: x' := by
    cases x with
    | nil => cases hrest
    | cons e x => exact ⟨x, by rw [(List.cons.inj hrest).1]⟩
  have htrim : trim f = x ++ ("RETURNING".toList ++ ' ' :: trim E) := (List.cons.inj hrest).2
  -- both texts end at the same place: they have the same characters but for white space
  have hblank : ∀ y, solid (' ' :: y) = solid y := fun y => List.filter_cons_of_neg (by decide)
  have hsolid : (solid f).length = (solid (' ' :: (x ++ (K ++ E)))).length := by
    rw [← solid_trim f, htrim, hblank, solid_append, solid_append, solid_append, solid_append,
      hblank, solid_trim, solid_eq_self hKnot, solid_eq_self solid_returning]
    simp only [List.length_append, hKlen]
    rfl
  have hcut : f ++ c :: s = ' ' :: (x ++ (K ++ E)) ++ d :: t := by
    rw [hx, List.cons_append, List.cons_append, List.append_assoc, List.append_assoc]
  obtain ⟨rfl, hbehind⟩ := front_eq hcut hc hd hsolid
  refine ⟨hbehind, ?_⟩
  -- neither text has more than one blank in front
  obtain ⟨e, u, heu, he⟩ : ∃ e u, x ++ (K ++ E) = e :: u ∧ isSpace e = false := by
    cases x with
    | nil =>
      cases K with
      | nil => cases hKlen
      | cons e K => exact ⟨e, K ++ E, rfl, hKnot e List.mem_cons_self⟩
    | cons e x => exact ⟨e, x ++ (K ++ E), rfl, head_trim htrim⟩
  obtain ⟨K', g, rfl⟩ : ∃ K' g, K = K' ++ [g] := by
    rcases List.eq_nil_or_concat K with rfl | ⟨K', g, rfl⟩
    · cases hKlen
    · exact ⟨K', g, List.concat_eq_append⟩
  have hlast : (x ++ (K' ++ [g])).getLast? = some g := by
    rw [← List.append_assoc, List.getLast?_concat]
  have hgne : isSpace g = false := hKnot g (List.mem_append_right _ List.mem_cons_self)
  rw [heu, trim_blank_cons he, ← heu, ← List.append_assoc, trimEnd_append hlast hgne,
    List.append_assoc, List.append_cancel_left_eq] at htrim
  obtain ⟨hcapital', hend⟩ := List.append_inj htrim hKlen
  refine ⟨⟨hcapital.symm, e, u, by rw [heu], he⟩, hcapital', ?_⟩
  obtain ⟨w, hw⟩ : trimEnd E <+: E := List.rdropWhile_prefix isSpace E
  cases htrimE : trim E with
  | nil =>
    rw [htrimE] at hend
    cases trimEnd_concat_ne (show trimEnd E = [] ++ [' '] from hend)
  | cons e' u' =>
    rw [hend, htrimE] at hw
    exact ⟨e', u' ++ w, hw.symm, head_trim htrimE⟩

/-- **The same text is split off at two places** if it is split at the same ones, or if nothing is
changed at either. -/
theorem split_eq (hsql : a ++ (k ++ (f ++ c :: s)) = A ++ (K ++ (E ++ d :: t)))
    (hk : upper k = "RETURNING".toList) (hK : upper K = "RETURNING".toList)
    (hc : isSpace c = false) (hd : isSpace d = false) (hle : a.length ≤ A.length)
    (htext : a ++ ("RETURNING ".toList ++ trim f) = A ++ ("RETURNING ".toList ++ trim E)) :
    c :: s = d :: t ∧ (a = A ∨ Plain k f ∧ Plain K E) := by
  have hklen : k.length = 9 := by rw [← length_upper, hk]; rfl
  rcases hle.eq_or_lt with heq | hlt
  · have hKlen : K.length = 9 := by rw [← length_upper, hK]; rfl
    obtain ⟨rfl, hwords⟩ := List.append_inj hsql heq
    obtain ⟨rfl, hrest⟩ := List.append_inj hwords (hklen.trans hKlen.symm)
    have htrim : trim f = trim E := by
      rwa [List.append_cancel_left_eq, List.append_cancel_left_eq] at htext
    have hsolid : (solid f).length = (solid E).length := by rw [← solid_trim, htrim, solid_trim]
    exact ⟨(front_eq hrest hc hd hsolid).2, Or.inl rfl⟩
  · obtain ⟨x, rfl, hx⟩ := behind_of_lt hsql hk hK hlt
    rw [List.append_assoc, List.append_cancel_left_eq, List.append_assoc] at htext
    obtain ⟨hbehind, hplain⟩ := plain_of_behind hx hklen hK hc hd htext
    exact ⟨hbehind, Or.inr hplain⟩

end Split

/-! ### Which statements are split exactly -/

/-- `INTO` starts with a letter. -/
lemma into_cons {into b : List Char} (h : upper into = "INTO".toList) :
    ∃ c s, into ++ b = c :: s ∧ isSpace c = false := by
  cases into with
  | nil => cases h
  | cons c s =>
    exact ⟨c, s ++ b, rfl, not_isSpace_of_upper (by decide) h c List.mem_cons_self⟩

/-- **A statement with a clause is split exactly** if what the code reads is the clause. -/
theorem ReturningClause.split_iff (c : ReturningClause) :
    splitReturningInto c.text = some c.split ↔ c.ReadRight := by
  rw [splitReturningInto_eq_some_iff]
  constructor
  · rintro ⟨a, returning, exprs, into, b, hsql, hread, -, hsplit⟩
    obtain ⟨htext, hcolons, hparts⟩ := ReturningInto.mk.inj hsplit
    obtain ⟨e, s, hes, he⟩ := into_cons (b := b) hread.upper_into
    obtain ⟨d, t, hdt, hd⟩ := into_cons (b := c.tail) c.into_word
    rw [ReturningClause.text, hes, hdt] at hsql
    have hbehind : d :: t = e :: s ∧
        (a = c.pre ∨ Plain returning exprs ∧ Plain c.returning c.exprText) := by
      rcases Nat.le_total c.pre.length a.length with hle | hle
      · obtain ⟨hbehind, heq | hplain⟩ :=
          split_eq hsql c.returning_word hread.upper_returning hd he hle htext
        · exact ⟨hbehind, Or.inl heq.symm⟩
        · exact ⟨hbehind, Or.inr hplain.symm⟩
      · obtain ⟨hbehind, hplace⟩ :=
          split_eq hsql.symm hread.upper_returning c.returning_word he hd hle htext.symm
        exact ⟨hbehind.symm, hplace⟩
    obtain ⟨hsame, hplace⟩ := hbehind
    have hintolen : c.into.length = 4 := by rw [← length_upper, c.into_word]; rfl
    obtain ⟨rfl, rfl⟩ := List.append_inj ((hes.trans hsame.symm).trans hdt.symm)
      (hread.into_length.trans hintolen.symm)
    rw [hsame] at hsql
    have hwhole : c.pre ++ (c.returning ++ c.exprText) ++ e :: s =
        a ++ (returning ++ exprs) ++ e :: s := by
      rw [List.append_assoc, List.append_assoc, List.append_assoc, List.append_assoc, hsql]
    have hfront := (List.append_cancel_right hwhole).symm
    exact ⟨a, returning, exprs, hfront, hread, hplace, hcolons.symm, hparts.symm⟩
  · rintro ⟨a, returning, exprs, hfront, hread, hplace, hcolons, hparts⟩
    have hne : c.tail.count ':' ≠ 0 := by
      rw [hcolons]
      exact fun hzero => c.names_ne (List.eq_nil_of_length_eq_zero hzero)
    refine ⟨a, returning, exprs, c.into, c.tail, ?_, hread, hne, ?_⟩
    · have happend := congrArg (· ++ (c.into ++ c.tail)) hfront
      simp only [List.append_assoc] at happend
      exact happend.symm
    · rw [ReturningClause.split, hcolons, hparts]
      congr 1
      rcases hplace with rfl | ⟨hplain, hplain'⟩
      · have hword : c.returning.length = 9 := by rw [← length_upper, c.returning_word]; rfl
        obtain ⟨-, hrest⟩ := List.append_inj hfront rfl
        obtain ⟨-, rfl⟩ := List.append_inj hrest (hread.returning_length.trans hword.symm)
        rfl
      · rw [hplain.text_eq, hplain'.text_eq, hfront]

/-- **Which statements are split exactly**: those of which the code reads the clause that there
is. -/
theorem splitExactly_iff (sql : List Char) : SplitExactly sql ↔ ReadRight sql := by
  refine and_congr ?_ ?_
  · refine forall_congr' fun c => forall_congr' fun htext => ?_
    rw [← htext]
    exact c.split_iff
  · exact forall_congr' fun _ => splitReturningInto_eq_none_iff

/-- A colon in a comment behind the bind list is counted. -/
def commentedClause : ReturningClause where
  pre := "UPDATE t SET a = 1 ".toList
  returning := "RETURNING".toList
  exprs := [" a ".toList]
  into := "INTO".toList
  names := ["1".toList]
  tail := " :1 -- new: a".toList
  returning_word := by decide
  into_word := by decide
  tokens := by decide
  pre_depth := by decide
  exprs_ne := by decide
  returned := by
    intro expr hexpr
    obtain rfl := List.mem_singleton.1 hexpr
    exact ⟨by decide, by decide, by decide⟩
  names_ne := by decide
  binds := ⟨[], by decide, by decide⟩
  tail_top := by decide

/-- **A comment behind the bind list makes two placeholders of one.** -/
theorem commentedClause_not_split :
    splitReturningInto commentedClause.text =
      some ⟨"UPDATE t SET a = 1 RETURNING a".toList, 2, 1⟩ ∧
    ¬ SplitExactly commentedClause.text := by
  have hcode : splitReturningInto commentedClause.text =
      some ⟨"UPDATE t SET a = 1 RETURNING a".toList, 2, 1⟩ := by decide
  refine ⟨hcode, fun hsplit => ?_⟩
  have hclause := hcode.symm.trans (hsplit.1 commentedClause rfl)
  exact absurd hclause (by decide)

end DbSaci.Wire
