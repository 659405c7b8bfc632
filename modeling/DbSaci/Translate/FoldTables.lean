import DbSaci.Library.Barrier
import DbSaci.Library.Transducer
import DbSaci.Translate.ReplaceIdentifier
import DbSaci.Translate.TopLevel

set_option relaxedAutoImplicit false
set_option autoImplicit false

/-!
# Letter case of tables, by text

Where a statement cannot be parsed, `fold_mariadb_table_refs_textual` folds the names that stand
behind certain keywords. `fold_relation_case` folds the names of the relations that a parser sees.

## Main definitions

* `foldTables` — the scanner.
* `Tok` — a token, with what a parser says of it: whether it is part of a relation's name.
* `Tok.meant` — what `fold_relation_case` does to it.
* `State`, `State.next` — what the scanner knows behind each token.
* `Agrees` — the condition on a statement.

## Main results

* `run_tok` — what the scanner writes for a token, in each state.
* `foldTables_iff` — when both fold the same names, and nothing else.
-/

namespace DbSaci.Translate.FoldTables

open Text

/-! ### The scanner -/

/-- `IdentifierCase`. -/
inductive IdentifierCase where
  | upper
  | lower
  deriving DecidableEq

/-- `IdentifierCase::apply`. -/
def IdentifierCase.apply : IdentifierCase → List Char → List Char
  | upper, s => Text.upper s
  | lower, s => s.map Char.toLower

/-- What opens a quoted part. -/
def isQuote (c : Char) : Bool := c = '\'' || c = '"' || c = Char.ofNat 96

/-- The characters of a name. -/
def isIdent (c : Char) : Bool := c.isAlphanum || c = '_' || c = '$' || c = '#'

/-- A table's name follows. -/
def opensTable (w : List Char) : Bool :=
  ["FROM".toList, "JOIN".toList, "STRAIGHT_JOIN".toList, "UPDATE".toList, "TABLE".toList,
    "VIEW".toList, "INTO".toList, "REFERENCES".toList].contains (upper w)

/-- `DUAL`. -/
def isDual (w : List Char) : Bool := upper w == "DUAL".toList

/-- How much of the text behind `/*` belongs to the comment. -/
def commentEnd (s : List Char) : ℕ :=
  match find ['*', '/'] s with
  | some o => o + 2
  | none => s.length

section Scanner

variable (ic : IdentifierCase)

/-- The dotted names behind a table's name: what is written, and how much is read. -/
def dottedChain : ℕ → List Char → List Char × ℕ
  | 0, _ => ([], 0)
  | n + 1, s =>
    match s.dropWhile isAsciiSpace with
    | [] => ([], 0)
    | c :: t =>
      if c = '.' then
        let gap := s.takeWhile isAsciiSpace
        let gap' := t.takeWhile isAsciiSpace
        let seg := (t.dropWhile isAsciiSpace).takeWhile isIdent
        let behind := dottedChain n ((t.dropWhile isAsciiSpace).dropWhile isIdent)
        (gap ++ '.' :: (gap' ++ ic.apply seg ++ behind.1),
          gap.length + 1 + gap'.length + seg.length + behind.2)
      else ([], 0)

/-- A step of the loop; the state is whether a table's name is expected. -/
def foldStep : Transducer Bool Char Char := fun expect c s =>
  if isQuote c then
    (c :: s.take (skipQuoted c s), skipQuoted c s, false)
  else if c = '-' ∧ s.head? = some '-' then
    (c :: s.takeWhile (· ≠ '\n'), (s.takeWhile (· ≠ '\n')).length, expect)
  else if c = '/' ∧ s.head? = some '*' then
    (c :: s.take (commentEnd s.tail + 1), commentEnd s.tail + 1, expect)
  else if isAsciiSpace c then ([c], 0, expect)
  else if c = ',' ∧ expect = true then ([c], 0, expect)
  else if c = ':' ∨ c = '@' then (c :: s.takeWhile isIdent, (s.takeWhile isIdent).length, false)
  else if isIdent c = true ∧ c.isDigit = false then
    let word := c :: s.takeWhile isIdent
    let rest := s.dropWhile isIdent
    if expect then
      if isDual word then (word, (s.takeWhile isIdent).length, false)
      else
        let behind := dottedChain ic rest.length rest
        (ic.apply word ++ behind.1, (s.takeWhile isIdent).length + behind.2, false)
    else (word, (s.takeWhile isIdent).length, opensTable word)
  else (pushBytes c, 0, false)

/-- `fold_mariadb_table_refs_textual`. -/
def foldTables (sql : List Char) : List Char := (foldStep ic).run false sql

end Scanner

/-! ### Tokens -/

/-- A token: a name, a keyword or a number; a quoted part; a comment; a blank; a bind placeholder or a
user variable; and any other character. A parser says which are parts of a relation's name. -/
inductive Tok where
  | word (w : List Char) (table : Bool)
  | quoted (q : Char) (body : List Char) (table : Bool)
  | lineComment (body : List Char)
  | blockComment (body : List Char)
  | blank (c : Char)
  | placeholder (mark : Char) (w : List Char)
  | other (c : Char)

namespace Tok

/-- How a token is written. -/
def text : Tok → List Char
  | word w _ => w
  | quoted q body _ => q :: (body ++ [q])
  | lineComment body => '-' :: '-' :: body
  | blockComment body => '/' :: '*' :: (body ++ ['*', '/'])
  | blank c => [c]
  | placeholder mark w => mark :: w
  | other c => [c]

/-- The token is one of the text, with some text behind it. -/
def Reads (rest : List Char) : Tok → Prop
  | word w _ => w ≠ [] ∧ (∀ c ∈ w, isIdent c = true) ∧ (∀ c ∈ rest.head?, isIdent c = false)
  | quoted q body _ => isQuote q = true ∧ Doubled q body ∧
      (∀ c ∈ rest.head?, c ≠ q)
  | lineComment body => '\n' ∉ body ∧ ∀ c ∈ rest.head?, c = '\n'
  | blockComment body => ¬ ['*', '/'] <:+: body ++ ['*']
  | blank c => isAsciiSpace c = true
  | placeholder mark w => (mark = ':' ∨ mark = '@') ∧ (∀ c ∈ w, isIdent c = true) ∧
      (∀ c ∈ rest.head?, isIdent c = false)
  | other c => isAsciiSpace c = false ∧ isIdent c = false ∧ isQuote c = false ∧ c ≠ ':' ∧ c ≠ '@' ∧
      (c = '-' → rest.head? ≠ some '-') ∧ (c = '/' → rest.head? ≠ some '*')

end Tok

/-- The text of a statement. -/
def text (ts : List Tok) : List Char := ts.flatMap Tok.text

/-- The tokens are those of their text. -/
def Lexed : List Tok → Prop
  | [] => True
  | t :: ts => t.Reads (text ts) ∧ Lexed ts

/-! ### What is meant -/

/-- `is_single_case`. -/
def isSingleCase (s : List Char) : Bool := !(s.any Char.isUpper && s.any Char.isLower)

section Meant

variable (ic : IdentifierCase)

/-- What `fold_relation_case` does to a token: a part of a relation's name is folded, unless it is
`DUAL`, or quoted in both cases. -/
def Tok.meant : Tok → List Char
  | word w table => if table && !isDual w then ic.apply w else w
  | quoted q body table =>
    q :: ((if table && !isDual body && isSingleCase body then ic.apply body else body) ++ [q])
  | t => t.text

/-- The statement with the tables folded that a parser sees. -/
def meant (ts : List Tok) : List Char := ts.flatMap (Tok.meant ic)

end Meant

/-! ### States -/

/-- What the scanner knows: nothing, that a table's name follows, that one stands in front, or a dot
behind one. -/
inductive State where
  | idle
  | table
  | named
  | dotted
  deriving DecidableEq

namespace State

/-- The scanner folds a word. -/
def folds : State → List Char → Bool
  | table, w => !w.head?.any Char.isDigit && !isDual w
  | dotted, _ => true
  | _, _ => false

/-- The state behind a token. -/
def next (st : State) : Tok → State
  | .word w _ =>
    if st.folds w then named
    else if st = table ∧ w.head?.any Char.isDigit = false then idle
    else if opensTable (w.dropWhile Char.isDigit) then table
    else idle
  | .quoted _ _ _ => idle
  | .lineComment _ => if st = table then table else idle
  | .blockComment _ => if st = table then table else idle
  | .blank _ => st
  | .placeholder _ _ => idle
  | .other c =>
    if c = ',' then if st = table then table else idle
    else if c = '.' then if st = named ∨ st = dotted then dotted else idle
    else idle

end State

section Agrees

variable (ic : IdentifierCase)

/-- **The scanner folds the same names**: it expects a table where there is one and nowhere else, or
folding changes nothing; no table's name is quoted whose letters would be folded; and outside quotes
and comments all characters are ASCII. -/
def Agrees : State → List Tok → Prop
  | _, [] => True
  | st, .word w table :: ts =>
    (st.folds w = (table && !isDual w) ∨ ic.apply w = w) ∧ Agrees (st.next (.word w table)) ts
  | st, .quoted q body table :: ts =>
    ((table && !isDual body && isSingleCase body) = true → ic.apply body = body) ∧
      Agrees (st.next (.quoted q body table)) ts
  | st, .other c :: ts => c.utf8Size = 1 ∧ Agrees (st.next (.other c)) ts
  | st, t :: ts => Agrees (st.next t) ts

/-- What the scanner writes for a token. -/
def State.written (st : State) : Tok → List Char
  | .word w _ => if st.folds w then ic.apply w else w
  | .other c => pushBytes c
  | t => t.text

/-! ### The run -/

/-- The dotted names behind a table's name, with as many steps as there are characters. -/
def chain (s : List Char) : List Char × ℕ := dottedChain ic s.length s

/-- What the scanner writes in a state. -/
def resume : State → List Char → List Char
  | .idle, s => (foldStep ic).run false s
  | .table, s => (foldStep ic).run true s
  | .named, s => (chain ic s).1 ++ (foldStep ic).run false (s.drop (chain ic s).2)
  | .dotted, s =>
    let rest := (s.dropWhile isAsciiSpace).dropWhile isIdent
    s.takeWhile isAsciiSpace ++ ic.apply ((s.dropWhile isAsciiSpace).takeWhile isIdent) ++
      ((chain ic rest).1 ++ (foldStep ic).run false (rest.drop (chain ic rest).2))

end Agrees

section Run

variable {ic : IdentifierCase}

/-! ### Characters -/

lemma apply_nil : ic.apply [] = [] := by
  cases ic <;> rfl

lemma length_apply (s : List Char) : (ic.apply s).length = s.length := by
  cases ic
  · exact length_upper s
  · exact List.length_map _

lemma length_pushBytes (c : Char) : (pushBytes c).length = c.utf8Size := by
  rw [pushBytes, List.length_map, String.length_utf8EncodeChar]

/-- A character of a name is no other one that the scanner looks for. -/
lemma not_special {c : Char} (h : isIdent c = true) :
    isQuote c = false ∧ c ≠ '-' ∧ c ≠ '/' ∧ isAsciiSpace c = false ∧ c ≠ ',' ∧ c ≠ ':' ∧ c ≠ '@' ∧
      c ≠ '.' := by
  have hne : ∀ d, isIdent d = false → c ≠ d := by
    rintro d hd rfl
    rw [h] at hd
    cases hd
  refine ⟨?_, hne _ rfl, hne _ rfl, ?_, hne _ rfl, hne _ rfl, hne _ rfl, hne _ rfl⟩
  · simp only [isQuote, Bool.or_eq_false_iff, decide_eq_false_iff_not]
    exact ⟨⟨hne _ rfl, hne _ rfl⟩, hne _ rfl⟩
  · simp only [isAsciiSpace, Bool.or_eq_false_iff, decide_eq_false_iff_not]
    exact ⟨⟨⟨⟨hne _ rfl, hne _ rfl⟩, hne _ rfl⟩, hne _ rfl⟩, hne _ rfl⟩

/-- White space is nothing else that the scanner looks for. -/
lemma blank_cases {c : Char} (h : isAsciiSpace c = true) :
    isQuote c = false ∧ c ≠ '-' ∧ c ≠ '/' := by
  simp only [isAsciiSpace, Bool.or_eq_true, decide_eq_true_eq] at h
  rcases h with (((rfl | rfl) | rfl) | rfl) | rfl <;> decide

/-! ### Steps -/

section Step

variable {e : Bool} {c : Char} {s : List Char}

lemma run_blank (h : isAsciiSpace c = true) :
    (foldStep ic).run e (c :: s) = c :: (foldStep ic).run e s := by
  obtain ⟨hquote, hdash, hslash⟩ := blank_cases h
  rw [Transducer.run_cons, foldStep, hquote, if_neg Bool.false_ne_true,
    if_neg fun hand => hdash hand.1, if_neg fun hand => hslash hand.1, if_pos h]
  rfl

lemma run_quoted {q : Char} {body rest : List Char} (hq : isQuote q = true)
    (hbody : Doubled q body) (hrest : ∀ c ∈ rest.head?, c ≠ q) :
    (foldStep ic).run e (q :: (body ++ [q]) ++ rest) =
      q :: (body ++ [q]) ++ (foldStep ic).run false rest := by
  have hskip : skipQuoted q (body ++ [q] ++ rest) = (body ++ [q]).length := by
    rw [List.append_assoc, List.singleton_append, skipQuoted_doubled hbody hrest,
      List.length_append, List.length_singleton]
  refine (foldStep ic).run_append ?_
  rw [foldStep, if_pos hq, hskip, List.take_left]

lemma run_lineComment {body rest : List Char} (hbody : '\n' ∉ body)
    (hrest : ∀ c ∈ rest.head?, c = '\n') :
    (foldStep ic).run e ('-' :: '-' :: body ++ rest) =
      '-' :: '-' :: body ++ (foldStep ic).run e rest := by
  have htake : ('-' :: body ++ rest).takeWhile (· ≠ '\n') = '-' :: body := by
    have hpos : ∀ c ∈ '-' :: body, decide (c ≠ '\n') = true := by
      intro c hc
      rw [decide_eq_true_eq]
      rintro rfl
      rcases List.mem_cons.1 hc with h | h
      · exact absurd h (by decide)
      · exact hbody h
    rw [List.takeWhile_append_of_pos hpos]
    cases rest with
    | nil => simp
    | cons c rest =>
      obtain rfl := hrest c rfl
      simp
  refine (foldStep ic).run_append (x := '-' :: body) ?_
  rw [foldStep, if_neg (by decide), if_pos ⟨rfl, rfl⟩, htake]

/-- The end of a comment is found. -/
lemma commentEnd_append {body : List Char} (h : ¬ ['*', '/'] <:+: body ++ ['*']) (rest : List Char) :
    commentEnd (body ++ ['*', '/'] ++ rest) = body.length + 2 := by
  have hfind : find ['*', '/'] (body ++ ['*', '/'] ++ rest) = some body.length := by
    induction body with
    | nil => rfl
    | cons c body ih =>
      have hpre : ¬ ['*', '/'].isPrefixOf (c :: (body ++ ['*', '/'] ++ rest)) = true := by
        intro hpre
        have htext : c :: (body ++ ['*', '/'] ++ rest) =
            (c :: body ++ ['*']) ++ ('/' :: rest) := by simp
        rw [htext, List.isPrefixOf_iff_prefix] at hpre
        have hlen : ['*', '/'].length ≤ (c :: body ++ ['*']).length := by simp
        exact h (List.prefix_of_prefix_length_le hpre (List.prefix_append _ _) hlen).isInfix
      have hrest : ¬ ['*', '/'] <:+: body ++ ['*'] := fun hin =>
        h (hin.trans (List.suffix_cons c _).isInfix)
      rw [List.cons_append, List.cons_append, find, if_neg hpre, ih hrest]
      rfl
  rw [commentEnd, hfind]

lemma run_blockComment {body rest : List Char} (h : ¬ ['*', '/'] <:+: body ++ ['*']) :
    (foldStep ic).run e ('/' :: '*' :: (body ++ ['*', '/']) ++ rest) =
      '/' :: '*' :: (body ++ ['*', '/']) ++ (foldStep ic).run e rest := by
  have hlen : commentEnd (body ++ ['*', '/'] ++ rest) + 1 = ('*' :: (body ++ ['*', '/'])).length := by
    rw [commentEnd_append h]
    simp
  have hstep : foldStep ic e '/' ('*' :: (body ++ ['*', '/']) ++ rest) =
      ('/' :: ('*' :: (body ++ ['*', '/']) ++ rest).take
        (commentEnd (body ++ ['*', '/'] ++ rest) + 1),
        commentEnd (body ++ ['*', '/'] ++ rest) + 1, e) := by
    rw [foldStep, if_neg (by decide), if_neg fun hand => absurd hand.1 (by decide),
      if_pos ⟨rfl, rfl⟩]
    rfl
  rw [hlen, List.take_left] at hstep
  exact (foldStep ic).run_append hstep

/-- The characters of a name in front of others. -/
lemma takeWhile_ident {w rest : List Char} (hw : ∀ c ∈ w, isIdent c = true)
    (hrest : ∀ c ∈ rest.head?, isIdent c = false) :
    (w ++ rest).takeWhile isIdent = w ∧ (w ++ rest).dropWhile isIdent = rest := by
  rw [List.takeWhile_append_of_pos hw, List.dropWhile_append_of_pos hw]
  cases rest with
  | nil => simp
  | cons c rest => simp [hrest c rfl]

lemma run_variable {mark : Char} {w rest : List Char} (hmark : mark = ':' ∨ mark = '@')
    (hw : ∀ c ∈ w, isIdent c = true) (hrest : ∀ c ∈ rest.head?, isIdent c = false) :
    (foldStep ic).run e (mark :: w ++ rest) = mark :: w ++ (foldStep ic).run false rest := by
  refine (foldStep ic).run_append ?_
  rw [foldStep, (takeWhile_ident hw hrest).1]
  rcases hmark with rfl | rfl <;> rfl

/-- Any other character. -/
lemma run_other (hread : (Tok.other c).Reads s) :
    (foldStep ic).run e (c :: s) =
      pushBytes c ++ (foldStep ic).run (e && decide (c = ',')) s := by
  obtain ⟨hspace, hident, hquote, hcolon, hat, hdash, hslash⟩ := hread
  rw [Transducer.run_cons, foldStep, hquote, hspace, hident, if_neg Bool.false_ne_true,
    if_neg fun hand => hdash hand.1 hand.2, if_neg fun hand => hslash hand.1 hand.2,
    if_neg Bool.false_ne_true]
  by_cases hcomma : c = ',' ∧ e = true
  · obtain ⟨rfl, rfl⟩ := hcomma
    rfl
  · have hexpect : (e && decide (c = ',')) = false := by
      rw [Bool.and_eq_false_iff, decide_eq_false_iff_not]
      by_cases hc : c = ','
      · left
        exact Bool.eq_false_iff.2 fun he => hcomma ⟨hc, he⟩
      · exact Or.inr hc
    rw [if_neg hcomma, if_neg (not_or.2 ⟨hcolon, hat⟩), if_neg fun hand => Bool.false_ne_true hand.1,
      hexpect]
    rfl

/-- A word where no table is expected, or one that starts with a digit. -/
lemma run_word {w rest : List Char} (hw : ∀ c ∈ w, isIdent c = true)
    (hrest : ∀ c ∈ rest.head?, isIdent c = false)
    (he : e = false ∨ w.head?.any Char.isDigit = true) :
    (foldStep ic).run e (w ++ rest) =
      w ++ (foldStep ic).run (opensTable (w.dropWhile Char.isDigit)) rest := by
  induction w generalizing e with
  | nil =>
    rcases he with rfl | he
    · rfl
    · cases he
  | cons c w ih =>
    have hc := hw c List.mem_cons_self
    have hw' : ∀ d ∈ w, isIdent d = true := fun d hd => hw d (List.mem_cons_of_mem c hd)
    obtain ⟨hquote, hdash, hslash, hspace, hcomma, hcolon, hat, -⟩ := not_special hc
    cases hdigit : c.isDigit with
    | true =>
      have hascii : c.utf8Size = 1 := by
        rw [Char.isDigit, Bool.and_eq_true, decide_eq_true_eq, decide_eq_true_eq] at hdigit
        rw [Char.utf8Size_eq_one_iff]
        exact UInt32.le_trans hdigit.2 (by decide)
      rw [List.cons_append, Transducer.run_cons, foldStep, hquote, hspace, hdigit,
        if_neg Bool.false_ne_true, if_neg fun hand => hdash hand.1, if_neg fun hand => hslash hand.1,
        if_neg Bool.false_ne_true, if_neg fun hand => hcomma hand.1, if_neg (not_or.2 ⟨hcolon, hat⟩),
        if_neg fun hand => Bool.false_ne_true hand.2.symm, pushBytes_ascii hascii,
        List.dropWhile_cons_of_pos hdigit]
      show [c] ++ (foldStep ic).run false (w ++ rest) = _
      rw [ih hw' (Or.inl rfl)]
      rfl
    | false =>
      have hexpect : e = false := by
        rcases he with he | he
        · exact he
        · rw [List.head?_cons, Option.any_some, hdigit] at he
          cases he
      have hdrop : (c :: w).dropWhile Char.isDigit = c :: w :=
        List.dropWhile_cons_of_neg (by rw [hdigit]; exact Bool.false_ne_true)
      rw [hdrop]
      refine (foldStep ic).run_append ?_
      rw [foldStep, hquote, hspace, if_neg Bool.false_ne_true, if_neg fun hand => hdash hand.1,
        if_neg fun hand => hslash hand.1, if_neg Bool.false_ne_true, if_neg fun hand => hcomma hand.1,
        if_neg (not_or.2 ⟨hcolon, hat⟩), if_pos ⟨hc, hdigit⟩, (takeWhile_ident hw' hrest).1, hexpect]
      rfl

/-- A word where a table is expected. -/
lemma run_table {w rest : List Char} (hw : ∀ d ∈ c :: w, isIdent d = true)
    (hrest : ∀ d ∈ rest.head?, isIdent d = false) (hdigit : c.isDigit = false) :
    (foldStep ic).run true (c :: w ++ rest) =
      if isDual (c :: w) = true then c :: w ++ resume ic .idle rest
      else ic.apply (c :: w) ++ resume ic .named rest := by
  have hc := hw c List.mem_cons_self
  have hw' : ∀ d ∈ w, isIdent d = true := fun d hd => hw d (List.mem_cons_of_mem c hd)
  obtain ⟨hquote, hdash, hslash, hspace, hcomma, hcolon, hat, -⟩ := not_special hc
  obtain ⟨htake, hdrop⟩ := takeWhile_ident hw' hrest
  rw [List.cons_append, Transducer.run_cons, foldStep, hquote, hspace, if_neg Bool.false_ne_true,
    if_neg fun hand => hdash hand.1, if_neg fun hand => hslash hand.1, if_neg Bool.false_ne_true,
    if_neg fun hand => hcomma hand.1, if_neg (not_or.2 ⟨hcolon, hat⟩), if_pos ⟨hc, hdigit⟩, htake,
    hdrop]
  cases hdual : isDual (c :: w) with
  | true =>
    simp only [hdual, if_true, List.drop_left]
    rfl
  | false =>
    simp only [hdual, if_true, Bool.false_eq_true, if_false]
    show ic.apply (c :: w) ++ (chain ic rest).1 ++
      (foldStep ic).run false ((w ++ rest).drop (w.length + (chain ic rest).2)) = _
    rw [← List.drop_drop, List.drop_left, List.append_assoc]
    rfl

end Step

/-! ### Dotted names -/

/-- As many steps as there are characters are enough. -/
lemma dottedChain_eq {n : ℕ} {s : List Char} (h : s.length ≤ n) :
    dottedChain ic n s = chain ic s := by
  induction hk : s.length using Nat.strongRecOn generalizing n s with
  | ind k ih =>
    cases s with
    | nil => cases n <;> rfl
    | cons c s =>
      obtain ⟨n, rfl⟩ := Nat.exists_eq_add_of_le' (Nat.one_le_of_lt h)
      rw [List.length_cons] at h hk
      rw [chain, List.length_cons, dottedChain, dottedChain]
      cases hdrop : (c :: s).dropWhile isAsciiSpace with
      | nil => rfl
      | cons d t =>
        have hsuffix : d :: t <:+ c :: s := hdrop ▸ List.dropWhile_suffix isAsciiSpace
        have hlen := hsuffix.length_le
        have hshort : ((t.dropWhile isAsciiSpace).dropWhile isIdent).length ≤ t.length :=
          ((List.dropWhile_suffix _).trans (List.dropWhile_suffix _)).length_le
        rw [List.length_cons, List.length_cons] at hlen
        have hn := ih _ (by omega) (n := n)
          (s := (t.dropWhile isAsciiSpace).dropWhile isIdent) (by omega) rfl
        have hs := ih _ (by omega) (n := s.length)
          (s := (t.dropWhile isAsciiSpace).dropWhile isIdent) (by omega) rfl
        simp only [hn, hs]

lemma resume_named (s : List Char) : resume ic .named s =
    (chain ic s).1 ++ (foldStep ic).run false (s.drop (chain ic s).2) := rfl

lemma resume_dotted (s : List Char) : resume ic .dotted s =
    s.takeWhile isAsciiSpace ++ ic.apply ((s.dropWhile isAsciiSpace).takeWhile isIdent) ++
      resume ic .named ((s.dropWhile isAsciiSpace).dropWhile isIdent) := rfl

section Chain

variable {s t : List Char}

/-- A dot behind a table's name, and the name behind it. -/
lemma chain_dot (h : s.dropWhile isAsciiSpace = '.' :: t) :
    chain ic s =
      (s.takeWhile isAsciiSpace ++ '.' :: (t.takeWhile isAsciiSpace ++
          ic.apply ((t.dropWhile isAsciiSpace).takeWhile isIdent) ++
          (chain ic ((t.dropWhile isAsciiSpace).dropWhile isIdent)).1),
        (s.takeWhile isAsciiSpace).length + 1 + (t.takeWhile isAsciiSpace).length +
          ((t.dropWhile isAsciiSpace).takeWhile isIdent).length +
          (chain ic ((t.dropWhile isAsciiSpace).dropWhile isIdent)).2) := by
  have hsuffix : '.' :: t <:+ s := h ▸ List.dropWhile_suffix isAsciiSpace
  have hlen := hsuffix.length_le
  have hshort : ((t.dropWhile isAsciiSpace).dropWhile isIdent).length ≤ t.length :=
    ((List.dropWhile_suffix _).trans (List.dropWhile_suffix _)).length_le
  rw [List.length_cons] at hlen
  obtain ⟨n, hn⟩ : ∃ n, s.length = n + 1 := Nat.exists_eq_add_of_le' (Nat.one_le_of_lt hlen)
  have hbehind : dottedChain ic n ((t.dropWhile isAsciiSpace).dropWhile isIdent) = chain ic _ :=
    dottedChain_eq (by omega)
  rw [chain, hn, dottedChain, h]
  simp only [hbehind, if_true]

/-- No dot behind a table's name. -/
lemma chain_none (h : ∀ t, s.dropWhile isAsciiSpace ≠ '.' :: t) : chain ic s = ([], 0) := by
  cases s with
  | nil => rfl
  | cons c s =>
    rw [chain, List.length_cons, dottedChain]
    cases hdrop : (c :: s).dropWhile isAsciiSpace with
    | nil => rfl
    | cons d t =>
      refine if_neg fun hd => h t ?_
      rw [hdrop, hd]

/-- What is written behind a table's name with a dot. -/
lemma resume_named_dot (h : s.dropWhile isAsciiSpace = '.' :: t) :
    resume ic .named s = s.takeWhile isAsciiSpace ++ '.' :: resume ic .dotted t := by
  have hs : s = s.takeWhile isAsciiSpace ++ '.' :: (t.takeWhile isAsciiSpace ++
      ((t.dropWhile isAsciiSpace).takeWhile isIdent ++
        (t.dropWhile isAsciiSpace).dropWhile isIdent)) := by
    rw [List.takeWhile_append_dropWhile, List.takeWhile_append_dropWhile, ← h,
      List.takeWhile_append_dropWhile]
  have hdrop : ∀ k, s.drop ((s.takeWhile isAsciiSpace).length + 1 +
      (t.takeWhile isAsciiSpace).length +
      ((t.dropWhile isAsciiSpace).takeWhile isIdent).length + k) =
        ((t.dropWhile isAsciiSpace).dropWhile isIdent).drop k := by
    intro k
    generalize hgap : s.takeWhile isAsciiSpace = gap at hs ⊢
    rw [hs, ← List.drop_drop, ← List.drop_drop, ← List.drop_drop, ← List.drop_drop, List.drop_left,
      List.drop_succ_cons, List.drop_zero, List.drop_left, List.drop_left]
  rw [resume_named, chain_dot h, resume_dotted, resume_named]
  simp only [hdrop, List.append_assoc, List.cons_append]

/-- What is written behind a table's name without a dot. -/
lemma resume_named_none (h : ∀ t, s.dropWhile isAsciiSpace ≠ '.' :: t) :
    resume ic .named s = resume ic .idle s := by
  rw [resume_named, chain_none h]
  rfl

lemma resume_named_blank {c : Char} (hc : isAsciiSpace c = true) (s : List Char) :
    resume ic .named (c :: s) = c :: resume ic .named s := by
  have hdrop : (c :: s).dropWhile isAsciiSpace = s.dropWhile isAsciiSpace :=
    List.dropWhile_cons_of_pos hc
  have htake : (c :: s).takeWhile isAsciiSpace = c :: s.takeWhile isAsciiSpace :=
    List.takeWhile_cons_of_pos hc
  by_cases h : ∃ t, s.dropWhile isAsciiSpace = '.' :: t
  · obtain ⟨t, ht⟩ := h
    rw [resume_named_dot (hdrop.trans ht), resume_named_dot ht, htake, List.cons_append]
  · have hnone : ∀ t, s.dropWhile isAsciiSpace ≠ '.' :: t := fun t ht => h ⟨t, ht⟩
    rw [resume_named_none hnone, resume_named_none fun t ht => hnone t (hdrop.symm.trans ht)]
    exact run_blank hc

/-- Behind a table's name only white space and a dot matter. -/
lemma resume_named_other (h : ∀ c ∈ s.head?, isAsciiSpace c = false ∧ c ≠ '.') :
    resume ic .named s = resume ic .idle s := by
  refine resume_named_none fun t ht => ?_
  cases s with
  | nil => cases ht
  | cons c s =>
    obtain ⟨hspace, hdot⟩ := h c rfl
    rw [List.dropWhile_cons_of_neg (by rw [hspace]; exact Bool.false_ne_true)] at ht
    exact hdot (List.cons.inj ht).1

lemma resume_dotted_blank {c : Char} (hc : isAsciiSpace c = true) (s : List Char) :
    resume ic .dotted (c :: s) = c :: resume ic .dotted s := by
  rw [resume_dotted, resume_dotted, List.dropWhile_cons_of_pos hc, List.takeWhile_cons_of_pos hc]
  rfl

lemma resume_dotted_word {w rest : List Char} (hne : w ≠ []) (hw : ∀ c ∈ w, isIdent c = true)
    (hrest : ∀ c ∈ rest.head?, isIdent c = false) :
    resume ic .dotted (w ++ rest) = ic.apply w ++ resume ic .named rest := by
  obtain ⟨htake, hdrop⟩ := takeWhile_ident hw hrest
  obtain ⟨c, w, rfl⟩ := List.exists_cons_of_ne_nil hne
  have hspace : ¬ isAsciiSpace c = true := by
    rw [(not_special (hw c List.mem_cons_self)).2.2.2.1]
    exact Bool.false_ne_true
  have hgap : (c :: w ++ rest).takeWhile isAsciiSpace = [] := List.takeWhile_cons_of_neg hspace
  have hbehind : (c :: w ++ rest).dropWhile isAsciiSpace = c :: w ++ rest :=
    List.dropWhile_cons_of_neg hspace
  rw [resume_dotted, hgap, hbehind, htake, hdrop, List.nil_append]

/-- Behind a dot without a name only white space and another dot matter. -/
lemma resume_dotted_other (h : ∀ c ∈ s.head?, isAsciiSpace c = false ∧ isIdent c = false) :
    resume ic .dotted s = resume ic .named s := by
  have hsplit : s.takeWhile isAsciiSpace = [] ∧ s.dropWhile isAsciiSpace = s ∧
      s.takeWhile isIdent = [] ∧ s.dropWhile isIdent = s := by
    cases s with
    | nil => exact ⟨rfl, rfl, rfl, rfl⟩
    | cons c s =>
      obtain ⟨hspace, hident⟩ := h c rfl
      simp [hspace, hident]
  obtain ⟨hgap, hbehind, hseg, hrest⟩ := hsplit
  rw [resume_dotted, hgap, hbehind, hseg, hrest, apply_nil]
  rfl

end Chain

/-! ### Tokens -/

lemma State.next_of_named (ic : IdentifierCase) (t : Tok) (h : ∀ w b, t ≠ .word w b) (hblank : ∀ c, t ≠ .blank c)
    (hdot : t ≠ .other '.') {st : State} (hst : st = .named ∨ st = .dotted) :
    st.next t = State.next .idle t ∧ st.written ic t = State.written ic .idle t := by
  cases t with
  | word w b => exact absurd rfl (h w b)
  | quoted q body b => exact ⟨rfl, rfl⟩
  | lineComment body => rcases hst with rfl | rfl <;> exact ⟨rfl, rfl⟩
  | blockComment body => rcases hst with rfl | rfl <;> exact ⟨rfl, rfl⟩
  | blank c => exact absurd rfl (hblank c)
  | placeholder mark w => exact ⟨rfl, rfl⟩
  | other c =>
    have hc : c ≠ '.' := fun heq => hdot (congrArg Tok.other heq)
    rcases hst with rfl | rfl <;> simp [State.next, State.written, hc]

/-- A token that is no word, no blank and no dot starts with none. -/
lemma head_text {t : Tok} {rest : List Char} (hread : t.Reads rest) (h : ∀ w b, t ≠ .word w b)
    (hblank : ∀ c, t ≠ .blank c) (hdot : t ≠ .other '.') :
    ∀ c ∈ (t.text ++ rest).head?, isAsciiSpace c = false ∧ isIdent c = false ∧ c ≠ '.' := by
  intro c hc
  cases t with
  | word w b => exact absurd rfl (h w b)
  | quoted q body b =>
    obtain rfl := Option.some.inj hc
    have hq := hread.1
    simp only [isQuote, Bool.or_eq_true, decide_eq_true_eq] at hq
    rcases hq with (rfl | rfl) | rfl <;> decide
  | lineComment body =>
    obtain rfl := Option.some.inj hc
    decide
  | blockComment body =>
    obtain rfl := Option.some.inj hc
    decide
  | blank c => exact absurd rfl (hblank c)
  | placeholder mark w =>
    obtain rfl := Option.some.inj hc
    rcases hread.1 with rfl | rfl <;> decide
  | other d =>
    obtain rfl := Option.some.inj hc
    exact ⟨hread.1, hread.2.1, fun heq => hdot (congrArg Tok.other heq)⟩

/-- What is written for a token where no name stands in front. -/
lemma run_tok_plain {t : Tok} {rest : List Char} (hread : t.Reads rest) {st : State}
    (hst : st = .idle ∨ st = .table) :
    resume ic st (t.text ++ rest) = st.written ic t ++ resume ic (st.next t) rest := by
  have hrun : ∀ s, resume ic st s = (foldStep ic).run (decide (st = .table)) s := by
    intro s
    rcases hst with rfl | rfl <;> rfl
  have hsame : ∀ s, resume ic (if st = .table then .table else .idle) s =
      (foldStep ic).run (decide (st = .table)) s := by
    intro s
    rcases hst with rfl | rfl <;> rfl
  rw [hrun]
  cases t with
  | quoted q body b => exact run_quoted hread.1 hread.2.1 hread.2.2
  | lineComment body =>
    refine (run_lineComment hread.1 hread.2).trans ?_
    rw [← hsame]
    rfl
  | blockComment body =>
    refine (run_blockComment hread).trans ?_
    rw [← hsame]
    rfl
  | blank c =>
    refine (run_blank hread).trans ?_
    rw [← hrun]
    rfl
  | placeholder mark w => exact run_variable hread.1 hread.2.1 hread.2.2
  | other c =>
    refine (run_other hread).trans (congrArg (pushBytes c ++ ·) ?_)
    rcases hst with rfl | rfl <;> by_cases hcomma : c = ',' <;> by_cases hdot : c = '.' <;>
      simp [State.next, hcomma, hdot] <;> rfl
  | word w b =>
    obtain ⟨hne, hw, hrest⟩ := hread
    have hopens : ∀ s, resume ic (if opensTable (w.dropWhile Char.isDigit) then .table else .idle) s =
        (foldStep ic).run (opensTable (w.dropWhile Char.isDigit)) s := by
      intro s
      cases opensTable (w.dropWhile Char.isDigit) <;> rfl
    rcases hst with rfl | rfl
    · refine (run_word hw hrest (Or.inl rfl)).trans ?_
      rw [← hopens]
      rfl
    · cases hdigit : w.head?.any Char.isDigit with
      | true =>
        refine (run_word hw hrest (Or.inr hdigit)).trans ?_
        rw [← hopens]
        simp [State.next, State.written, State.folds, hdigit]
      | false =>
        obtain ⟨c, w, rfl⟩ := List.exists_cons_of_ne_nil hne
        have hdigit : c.isDigit = false := hdigit
        refine (run_table hw hrest hdigit).trans ?_
        cases hdual : isDual (c :: w) with
        | true => simp [State.next, State.written, State.folds, hdigit, hdual]
        | false => simp [State.next, State.written, State.folds, hdigit, hdual]

/-- What is written for a token behind a table's name that has nothing to do with it. -/
lemma run_tok_named {t : Tok} {rest : List Char} (hread : t.Reads rest) (h : ∀ w b, t ≠ .word w b)
    (hblank : ∀ c, t ≠ .blank c) (hdot : t ≠ .other '.') {st : State}
    (hst : st = .named ∨ st = .dotted) :
    resume ic st (t.text ++ rest) = st.written ic t ++ resume ic (st.next t) rest := by
  obtain ⟨hnext, hwritten⟩ := State.next_of_named ic t h hblank hdot hst
  have hhead := head_text hread h hblank hdot
  have hidle : resume ic .named (t.text ++ rest) = resume ic .idle (t.text ++ rest) :=
    resume_named_other fun c hc => ⟨(hhead c hc).1, (hhead c hc).2.2⟩
  rw [hnext, hwritten, ← run_tok_plain hread (Or.inl rfl), ← hidle]
  rcases hst with rfl | rfl
  · rfl
  · exact resume_dotted_other fun c hc => ⟨(hhead c hc).1, (hhead c hc).2.1⟩

/-- A dot behind a table's name. -/
lemma resume_dot (rest : List Char) {st : State} (hst : st = .named ∨ st = .dotted) :
    resume ic st ('.' :: rest) = '.' :: resume ic .dotted rest := by
  have hnamed : resume ic .named ('.' :: rest) = '.' :: resume ic .dotted rest :=
    resume_named_dot rfl
  rcases hst with rfl | rfl
  · exact hnamed
  · rw [resume_dotted_other, hnamed]
    intro c hc
    obtain rfl := Option.some.inj hc
    decide

/-- **What the scanner writes for a token**, in each state. -/
theorem run_tok {t : Tok} {rest : List Char} (hread : t.Reads rest) (st : State) :
    resume ic st (t.text ++ rest) = st.written ic t ++ resume ic (st.next t) rest := by
  by_cases hplain : st = .idle ∨ st = .table
  · exact run_tok_plain hread hplain
  have hst : st = .named ∨ st = .dotted := by
    cases st with
    | idle => exact absurd (Or.inl rfl) hplain
    | table => exact absurd (Or.inr rfl) hplain
    | named => exact Or.inl rfl
    | dotted => exact Or.inr rfl
  cases t with
  | quoted q body b => exact run_tok_named hread (by simp) (by simp) (by simp) hst
  | lineComment body => exact run_tok_named hread (by simp) (by simp) (by simp) hst
  | blockComment body => exact run_tok_named hread (by simp) (by simp) (by simp) hst
  | placeholder mark w => exact run_tok_named hread (by simp) (by simp) (by simp) hst
  | blank c =>
    rcases hst with rfl | rfl
    · exact resume_named_blank hread rest
    · exact resume_dotted_blank hread rest
  | other c =>
    by_cases hc : c = '.'
    · subst hc
      refine (resume_dot rest hst).trans ?_
      have hnext : st.next (.other '.') = .dotted := by
        rcases hst with rfl | rfl <;> rfl
      rw [hnext, State.written, pushBytes_ascii (by decide)]
      rfl
    · exact run_tok_named hread (by simp) (by simp) (by simpa using hc) hst
  | word w b =>
    obtain ⟨hne, hw, hrest⟩ := hread
    rcases hst with rfl | rfl
    · have hhead : ∀ c ∈ (w ++ rest).head?, isAsciiSpace c = false ∧ c ≠ '.' := by
        intro c hc
        obtain ⟨d, w, rfl⟩ := List.exists_cons_of_ne_nil hne
        obtain rfl := Option.some.inj hc
        obtain ⟨-, -, -, hspace, -, -, -, hdot⟩ := not_special (hw d List.mem_cons_self)
        exact ⟨hspace, hdot⟩
      exact (resume_named_other hhead).trans (run_tok_plain (t := .word w b) ⟨hne, hw, hrest⟩ (Or.inl rfl))
    · exact resume_dotted_word hne hw hrest

/-- What the scanner writes for a statement. -/
def scanned (ic : IdentifierCase) : State → List Tok → List Char
  | _, [] => []
  | st, t :: ts => st.written ic t ++ scanned ic (st.next t) ts

lemma resume_text {ts : List Tok} (h : Lexed ts) (st : State) :
    resume ic st (text ts) = scanned ic st ts := by
  induction ts generalizing st with
  | nil =>
    cases st with
    | idle => rfl
    | table => rfl
    | named => rfl
    | dotted =>
      show ic.apply [] ++ ([] ++ []) = []
      rw [apply_nil]
      rfl
  | cons t ts ih =>
    have htext : text (t :: ts) = t.text ++ text ts := List.flatMap_cons
    rw [htext, run_tok h.1, ih h.2, scanned]

lemma length_word (st : State) (w : List Char) (b : Bool) :
    (st.written ic (.word w b)).length = ((Tok.word w b).meant ic).length := by
  rw [State.written, Tok.meant]
  split_ifs <;> simp only [length_apply]

lemma length_quoted (st : State) (q : Char) (body : List Char) (b : Bool) :
    (st.written ic (.quoted q body b)).length = ((Tok.quoted q body b).meant ic).length := by
  show (q :: (body ++ [q])).length = _
  rw [Tok.meant]
  split_ifs <;> simp only [List.length_cons, List.length_append, length_apply]

lemma length_written (st : State) (t : Tok) : (t.meant ic).length ≤ (st.written ic t).length := by
  cases t with
  | word w b => exact (length_word st w b).ge
  | quoted q body b => exact (length_quoted st q body b).ge
  | lineComment body => exact le_rfl
  | blockComment body => exact le_rfl
  | blank c => exact le_rfl
  | placeholder mark w => exact le_rfl
  | other c =>
    rw [State.written, length_pushBytes]
    exact c.utf8Size_pos

/-- Nothing gets shorter. -/
lemma length_scanned (st : State) (ts : List Tok) :
    (meant ic ts).length ≤ (scanned ic st ts).length := by
  induction ts generalizing st with
  | nil => exact le_rfl
  | cons t ts ih =>
    have hmeant : meant ic (t :: ts) = t.meant ic ++ meant ic ts := List.flatMap_cons
    rw [hmeant, scanned, List.length_append, List.length_append]
    exact Nat.add_le_add (length_written st t) (ih _)

lemma append_eq_iff {a b x y : List Char} (h : a.length = b.length) :
    a ++ x = b ++ y ↔ a = b ∧ x = y := by
  constructor
  · exact fun heq => List.append_inj heq h
  · rintro ⟨rfl, rfl⟩
    rfl

/-- Token by token, the same is written if and only if the scanner expects what the parser sees. -/
lemma scanned_iff (st : State) (ts : List Tok) :
    scanned ic st ts = meant ic ts ↔ Agrees ic st ts := by
  induction ts generalizing st with
  | nil => exact iff_of_true rfl trivial
  | cons t ts ih =>
    have hmeant : meant ic (t :: ts) = t.meant ic ++ meant ic ts := List.flatMap_cons
    rw [hmeant, scanned]
    cases t with
    | word w b =>
      rw [append_eq_iff (length_word st w b), ih]
      refine and_congr_left fun _ => ?_
      rw [State.written, Tok.meant]
      cases st.folds w <;> cases b && !isDual w <;> simp [eq_comm]
    | quoted q body b =>
      rw [append_eq_iff (length_quoted st q body b), ih]
      refine and_congr_left fun _ => ?_
      show q :: (body ++ [q]) = _ ↔ _
      rw [Tok.meant]
      cases b && !isDual body && isSingleCase body <;> simp [eq_comm]
    | other c =>
      show pushBytes c ++ _ = [c] ++ _ ↔ c.utf8Size = 1 ∧ _
      by_cases hascii : c.utf8Size = 1
      · rw [pushBytes_ascii hascii, and_iff_right hascii, List.append_cancel_left_eq, ih]
      · refine iff_of_false (fun heq => ?_) fun hand => hascii hand.1
        have hlen := congrArg List.length heq
        rw [List.length_append, List.length_append, length_pushBytes, List.length_singleton] at hlen
        have hle : (meant ic ts).length ≤ (scanned ic (st.next (.other c)) ts).length :=
          length_scanned _ ts
        have hpos := c.utf8Size_pos
        omega
    | lineComment body => exact (List.append_cancel_left_eq _ _ _).to_iff.trans (ih _)
    | blockComment body => exact (List.append_cancel_left_eq _ _ _).to_iff.trans (ih _)
    | blank c => exact (List.append_cancel_left_eq _ _ _).to_iff.trans (ih _)
    | placeholder mark w => exact (List.append_cancel_left_eq _ _ _).to_iff.trans (ih _)

/-- **When both fold the same names**, and nothing else is changed: if and only if the scanner
expects the tables that the parser sees. -/
theorem foldTables_iff {ts : List Tok} (h : Lexed ts) :
    foldTables ic (text ts) = meant ic ts ↔ Agrees ic .idle ts := by
  have htext : foldTables ic (text ts) = scanned ic .idle ts := resume_text h .idle
  rw [htext, scanned_iff]

end Run

/-! ### Statements -/

lemma reads_word {w rest : List Char} (b : Bool) (hne : w ≠ []) (hw : w.all isIdent = true)
    (h : (rest.head?.all fun c => !isIdent c) = true) : (Tok.word w b).Reads rest := by
  refine ⟨hne, fun c hc => List.all_eq_true.1 hw c hc, fun c hc => ?_⟩
  rw [hc, Option.all_some, Bool.not_eq_true'] at h
  exact h

lemma reads_comma (rest : List Char) : (Tok.other ',').Reads rest :=
  ⟨rfl, rfl, rfl, by decide, by decide, fun h => absurd h (by decide), fun h => absurd h (by decide)⟩

/-- `SELECT a FROM t`. -/
def oneTable : List Tok :=
  [.word "SELECT".toList false, .blank ' ', .word "a".toList false, .blank ' ',
    .word "FROM".toList false, .blank ' ', .word "t".toList true]

lemma lexed_oneTable : Lexed oneTable :=
  ⟨reads_word _ (by decide) rfl rfl, rfl, reads_word _ (by decide) rfl rfl, rfl,
    reads_word _ (by decide) rfl rfl, rfl, reads_word _ (by decide) rfl rfl, trivial⟩

/-- The scanner expects the table behind `FROM`. -/
theorem oneTable_agrees : Agrees .upper .idle oneTable :=
  (foldTables_iff lexed_oneTable).1 (by decide)

/-- `SELECT a FROM t, u`. -/
def twoTables : List Tok :=
  [.word "SELECT".toList false, .blank ' ', .word "a".toList false, .blank ' ',
    .word "FROM".toList false, .blank ' ', .word "t".toList true, .other ',', .blank ' ',
    .word "u".toList true]

lemma lexed_twoTables : Lexed twoTables :=
  ⟨reads_word _ (by decide) rfl rfl, rfl, reads_word _ (by decide) rfl rfl, rfl,
    reads_word _ (by decide) rfl rfl, rfl, reads_word _ (by decide) rfl rfl, reads_comma _, rfl,
    reads_word _ (by decide) rfl rfl, trivial⟩

/-- The second table of a list is not folded. -/
theorem second_table_not_folded :
    Lexed twoTables ∧ foldTables .upper (text twoTables) ≠ meant .upper twoTables :=
  ⟨lexed_twoTables, by decide⟩

end DbSaci.Translate.FoldTables
