import DbSaci.Library.Barrier
import DbSaci.Library.Fronts
import DbSaci.Sql.Lexemes
import DbSaci.Translate.TopLevel

set_option relaxedAutoImplicit false
set_option autoImplicit false

/-!
# Headers of stored programs

`rewrite_plsql` cuts a function or a procedure at `IS`, wherever it is seen, or else at `AS`, and
writes what comes behind between dollar quotes.

## Main definitions

* `cutProgram`, `rewriteProgram` — the pass. What is done to the two parts is a parameter: the cut
  does not depend on it.
* `SeenAt` — the search for a keyword sees one at a place.
* `Program` — a stored program, by its tokens.
* `Faithful` — what is meant.

## Main results

* `findTopLevelKw_eq_some_iff`, `findTopLevelKw_eq_none_iff` — which keyword is found.
* `dollarBody_iff` — when the text between the dollar quotes is read as it is written.
* `program_faithful_iff` — when a program is cut at its header, and its body is read as it is written.
-/

namespace DbSaci.Translate.Plsql

open Text Sql
open Physical (Spaces)

/-! ### The pass -/

/-- `trim().trim_end_matches('/').trim()`. -/
def statementText (sql : List Char) : List Char :=
  trim ((trim sql).rdropWhile fun c => c = '/')

/-- What is cut: the statement, its signature and its body, and whether it is a procedure. -/
structure Cut where
  statement : List Char
  sig : List Char
  body : List Char
  isProc : Bool
  deriving DecidableEq

/-- What a function or a procedure starts with. -/
def programStarts : List (List Char) :=
  ["CREATE OR REPLACE FUNCTION".toList, "CREATE FUNCTION".toList,
    "CREATE OR REPLACE PROCEDURE".toList, "CREATE PROCEDURE".toList]

/-- The body without white space and semicolons at its ends. -/
def bodyText (s : List Char) : List Char := trim ((trim s).rdropWhile fun c => c = ';')

/-- The cut of a function or a procedure in `rewrite_plsql`. -/
def cutProgram (sql : List Char) : Option Cut :=
  let t := statementText sql
  if programStarts.any (startsWith · t) then
    ((findTopLevelKw t "IS".toList).or (findTopLevelKw t "AS".toList)).map fun at_ =>
      { statement := t
        sig := t.take at_
        body := bodyText (t.drop (at_ + 2))
        isProc := (find "PROCEDURE".toList (upper t)).isSome }
  else none

/-- `RETURN <type>` becomes `RETURNS <type>`. -/
def returnsClause (cut : Cut) : List Char :=
  if cut.isProc then cut.sig
  else
    match rfind "RETURN ".toList (upper cut.sig) with
    | some rp => cut.sig.take rp ++ "RETURNS ".toList ++ cut.sig.drop (rp + "RETURN ".length)
    | none => cut.sig

/-- What is written behind the opening dollar quote. -/
def quoted (body : List Char) : List Char :=
  " ".toList ++ body ++ " ; $plsql$ LANGUAGE plpgsql".toList

section Output

variable (normalize common loops : List Char → Option (List Char))

/-- The body that is written: declarations get their keyword. -/
def programBody (body : List Char) : Option (List Char) :=
  (common body).bind fun b =>
    loops
      (if startsWith "BEGIN".toList (trimStart b) || startsWith "DECLARE".toList (trimStart b) then b
      else "DECLARE ".toList ++ b)

/-- `rewrite_plsql` of a function or a procedure: `normalize` is done to its signature, `common` and
`loops` to its body. There is no result where one of them fails. -/
def rewriteProgram (sql : List Char) : Option (List Char) :=
  (cutProgram sql).bind fun cut =>
    (normalize (returnsClause cut)).bind fun sig =>
      (programBody common loops cut.body).map fun body =>
        trim sig ++ " AS $plsql$".toList ++ quoted body

end Output

/-- What PostgreSQL reads behind the opening quote: the text up to the next quote, and what comes
behind it. -/
def dollarBody (s : List Char) : Option (List Char × List Char) := cutAt "$plsql$".toList s

/-! ### Where a keyword is seen -/

/-- What the search for a keyword knows of the text in front: the depth, the open quote, and whether
white space comes last. -/
abbrev KwState := ℤ × Option Char × Bool

/-- The state behind a character. -/
def kwStep : KwState → Char → KwState
  | (depth, some q, _), c => (depth, if c = q then none else some q, isAsciiSpace c)
  | (depth, none, _), c =>
    if c = '\'' ∨ c = '"' then (depth, some c, isAsciiSpace c)
    else if c = '(' then (depth + 1, none, isAsciiSpace c)
    else if c = ')' then (depth - 1, none, isAsciiSpace c)
    else (depth, none, isAsciiSpace c)

/-- A keyword stands here, between white space, outside quotes and parentheses. -/
def Hit (kw : List Char) (st : KwState) (y : List Char) : Prop :=
  st = (0, none, true) ∧ startsWith kw y = true ∧ atBoundary (y.drop kw.length) = true

instance (kw : List Char) (st : KwState) (y : List Char) : Decidable (Hit kw st y) :=
  inferInstanceAs (Decidable (_ ∧ _ ∧ _))

/-- **The search sees a keyword** between two texts. -/
def SeenAt (kw x y : List Char) : Prop := Hit kw (x.foldl kwStep (0, none, false)) y

section Search

variable {kw : List Char} (hkw : kw.head?.any (fun c => c.isAlpha) = true)

include hkw

/-- A keyword does not start with a quote or a parenthesis. -/
lemma not_startsWith {c : Char} (hc : c.isAlpha = false) (s : List Char) :
    startsWith kw (c :: s) = false := by
  cases kw with
  | nil => cases hkw
  | cons d kw =>
    by_contra hstart
    rw [Bool.not_eq_false, startsWith, List.isPrefixOf_iff_prefix] at hstart
    have hd : d = c.toUpper := (List.cons_prefix_cons.1 hstart).1
    have halpha : d.isAlpha = true := hkw
    rw [hd] at halpha
    have hup : c.toUpper = c := by
      rcases toUpper_cases c with hup | ⟨hletter, -⟩
      · exact hup
      · rw [hc] at hletter
        cases hletter
    rw [hup, hc] at halpha
    cases halpha

/-- The search at a character. -/
lemma findKwFrom_cons (depth : ℤ) (quote : Option Char) (before : Bool) (c : Char)
    (s : List Char) :
    findKwFrom kw depth quote before (c :: s) =
      if Hit kw (depth, quote, before) (c :: s) then some 0
      else
        (findKwFrom kw (kwStep (depth, quote, before) c).1 (kwStep (depth, quote, before) c).2.1
          (kwStep (depth, quote, before) c).2.2 s).map (· + 1) := by
  have hmiss : ∀ {c : Char}, c.isAlpha = false → ∀ st s, ¬ Hit kw st (c :: s) := by
    intro c hc st s hhit
    have hstart := hhit.2.1
    rw [not_startsWith hkw hc] at hstart
    cases hstart
  cases quote with
  | some q =>
    rw [if_neg fun hhit => by cases (Prod.mk.inj (Prod.mk.inj hhit.1).2).1]
    rfl
  | none =>
    rw [findKwFrom, kwStep]
    by_cases hq : c = '\'' ∨ c = '"'
    · rw [if_pos hq, if_pos hq, if_neg]
      rcases hq with rfl | rfl <;> exact hmiss rfl _ s
    rw [if_neg hq, if_neg hq]
    by_cases ho : c = '('
    · rw [if_pos ho, if_pos ho, if_neg]
      subst ho
      exact hmiss rfl _ s
    rw [if_neg ho, if_neg ho]
    by_cases hc : c = ')'
    · rw [if_pos hc, if_pos hc, if_neg]
      subst hc
      exact hmiss rfl _ s
    rw [if_neg hc, if_neg hc]
    have hiff : (depth = 0 ∧ before = true ∧ startsWith kw (c :: s) = true ∧
        atBoundary ((c :: s).drop kw.length) = true) ↔ Hit kw (depth, none, before) (c :: s) := by
      simp [Hit, and_assoc]
    exact if_congr hiff rfl rfl

/-- **Where a keyword is found**: at the first place where it is seen. -/
theorem findKwFrom_eq_some_iff (depth : ℤ) (quote : Option Char) (before : Bool) (s : List Char)
    (n : ℕ) :
    findKwFrom kw depth quote before s = some n ↔
      ∃ x y, s = x ++ y ∧ x.length = n ∧ Hit kw (x.foldl kwStep (depth, quote, before)) y ∧
        ∀ u v, x = u ++ v → v ≠ [] →
          ¬ Hit kw (u.foldl kwStep (depth, quote, before)) (v ++ y) := by
  induction s generalizing depth quote before n with
  | nil =>
    have hnone : findKwFrom kw depth quote before [] = none := by
      cases quote <;> rfl
    rw [hnone]
    refine iff_of_false (by simp) ?_
    rintro ⟨x, y, hxy, -, hhit, -⟩
    obtain ⟨-, rfl⟩ := List.append_eq_nil_iff.1 hxy.symm
    cases kw with
    | nil => cases hkw
    | cons d kw => cases hhit.2.1
  | cons c s ih =>
    rw [findKwFrom_cons hkw]
    by_cases hhit : Hit kw (depth, quote, before) (c :: s)
    · rw [if_pos hhit]
      constructor
      · intro hn
        exact ⟨[], c :: s, rfl, Option.some.inj hn, hhit, fun u v huv hv =>
          absurd (List.append_eq_nil_iff.1 huv.symm).2 hv⟩
      · rintro ⟨x, y, hxy, hlen, -, hfirst⟩
        cases x with
        | nil => exact congrArg some hlen
        | cons d x =>
          rw [List.cons_append] at hxy
          have hno := hfirst [] (d :: x) rfl (List.cons_ne_nil d x)
          rw [List.cons_append, ← hxy] at hno
          exact absurd hhit hno
    · rw [if_neg hhit, Option.map_eq_some_iff]
      constructor
      · rintro ⟨m, hm, rfl⟩
        obtain ⟨x, y, rfl, rfl, hseen, hfirst⟩ := (ih _ _ _ m).1 hm
        refine ⟨c :: x, y, rfl, rfl, hseen, fun u v huv hv => ?_⟩
        cases u with
        | nil =>
          rw [List.nil_append] at huv
          rw [← huv]
          exact hhit
        | cons d u =>
          obtain ⟨rfl, hx⟩ := List.cons.inj huv
          exact hfirst u v hx hv
      · rintro ⟨x, y, hxy, hlen, hseen, hfirst⟩
        cases x with
        | nil =>
          rw [List.nil_append] at hxy
          rw [← hxy] at hseen
          exact absurd hseen hhit
        | cons d x =>
          obtain ⟨rfl, rfl⟩ := List.cons.inj hxy
          refine ⟨x.length, (ih _ _ _ _).2 ⟨x, y, rfl, rfl, hseen, fun u v huv hv => ?_⟩, hlen⟩
          exact hfirst (c :: u) v (congrArg (c :: ·) huv) hv

/-- **Where a keyword is not found**: it is seen nowhere. -/
theorem findKwFrom_eq_none_iff (depth : ℤ) (quote : Option Char) (before : Bool)
    (s : List Char) :
    findKwFrom kw depth quote before s = none ↔
      ∀ x y, s = x ++ y → ¬ Hit kw (x.foldl kwStep (depth, quote, before)) y := by
  induction s generalizing depth quote before with
  | nil =>
    have hnone : findKwFrom kw depth quote before [] = none := by
      cases quote <;> rfl
    refine iff_of_true hnone fun x y hxy hhit => ?_
    obtain ⟨-, rfl⟩ := List.append_eq_nil_iff.1 hxy.symm
    cases kw with
    | nil => cases hkw
    | cons d kw => cases hhit.2.1
  | cons c s ih =>
    rw [findKwFrom_cons hkw]
    by_cases hhit : Hit kw (depth, quote, before) (c :: s)
    · rw [if_pos hhit]
      exact iff_of_false (Option.some_ne_none 0) fun hno => hno [] (c :: s) rfl hhit
    · rw [if_neg hhit, Option.map_eq_none_iff, ih]
      constructor
      · intro hno x y hxy
        cases x with
        | nil =>
          rw [List.nil_append] at hxy
          rw [← hxy]
          exact hhit
        | cons d x =>
          obtain ⟨rfl, rfl⟩ := List.cons.inj hxy
          exact hno x y rfl
      · rintro hno x y rfl
        exact hno (c :: x) y rfl

theorem findTopLevelKw_eq_some_iff (s : List Char) (n : ℕ) :
    findTopLevelKw s kw = some n ↔
      ∃ x y, s = x ++ y ∧ x.length = n ∧ SeenAt kw x y ∧
        ∀ u v, x = u ++ v → v ≠ [] → ¬ SeenAt kw u (v ++ y) :=
  findKwFrom_eq_some_iff hkw 0 none false s n

theorem findTopLevelKw_eq_none_iff (s : List Char) :
    findTopLevelKw s kw = none ↔ ∀ x y, s = x ++ y → ¬ SeenAt kw x y :=
  findKwFrom_eq_none_iff hkw 0 none false s

end Search

/-! ### What is meant -/

/-- How many parentheses are open behind some tokens. -/
def depthAfter (ts : List Lexeme) : ℤ :=
  ts.foldl (fun depth t =>
    match t with
    | .sym c => if c = '(' then depth + 1 else if c = ')' then depth - 1 else depth
    | _ => depth) 0

/-- The words among some tokens. -/
def wordsOf (ts : List Lexeme) : List (List Char) :=
  ts.filterMap fun t =>
    match t with
    | .word w => some (upper w)
    | _ => none

/-- The words that a program starts with. -/
def headerWords (orReplace function : Bool) : List (List Char) :=
  "CREATE".toList :: ((if orReplace then ["OR".toList, "REPLACE".toList] else []) ++
    [if function then "FUNCTION".toList else "PROCEDURE".toList])

/-- **A stored program**: the tokens in front of the first `IS` or `AS` outside parentheses, that
word, and the tokens behind it. White space stands around it, and slashes can behind. -/
structure Program where
  before : List Char
  front : List Lexeme
  kw : List Char
  back : List Lexeme
  after : List Char
  orReplace : Bool
  function : Bool
  header : headerWords orReplace function <+: wordsOf front
  keyword : upper kw = "IS".toList ∨ upper kw = "AS".toList
  lexed : Lexed (front ++ .word kw :: back)
  trimmed : Trimmed (lexemesText (front ++ .word kw :: back))
  level : depthAfter front = 0
  first : ∀ u w v, front = u ++ .word w :: v →
    upper w = "IS".toList ∨ upper w = "AS".toList → depthAfter u ≠ 0
  spaceBefore : Spaces before
  spaceAfter : ∀ c ∈ after, isSpace c = true ∨ c = '/'

namespace Program

variable (p : Program)

/-- The text of a program, without what stands around it. -/
def text : List Char := lexemesText (p.front ++ .word p.kw :: p.back)

/-- The text that is sent. -/
def sql : List Char := p.before ++ p.text ++ p.after

/-- **The cut that is meant**: at the first `IS` or `AS` outside parentheses. -/
def cut : Cut where
  statement := p.text
  sig := lexemesText p.front
  body := bodyText (lexemesText p.back)
  isProc := !p.function

lemma text_eq : p.text = lexemesText p.front ++ (p.kw ++ lexemesText p.back) := by
  rw [text, lexemesText_append, lexemesText_cons, Lexeme.text]

lemma length_kw : p.kw.length = 2 := by
  have hlen := length_upper p.kw
  rcases p.keyword with h | h <;> rw [h] at hlen <;> exact hlen.symm

end Program

section Faithful

variable (normalize common loops : List Char → Option (List Char)) (p : Program)

/-- **A program is faithful** if it is cut at its header, its kind is its own, and the body that
PostgreSQL reads is the one that is written. -/
def Faithful : Prop :=
  cutProgram p.sql = some p.cut ∧
    ∃ sig body, rewriteProgram normalize common loops p.sql =
        some (trim sig ++ " AS $plsql$".toList ++ quoted body) ∧
      normalize (returnsClause p.cut) = some sig ∧
      programBody common loops p.cut.body = some body ∧
      dollarBody (quoted body) =
        some (" ".toList ++ body ++ " ; ".toList, " LANGUAGE plpgsql".toList)

/-- **The header is seen as it is**: only what may stand around a program is taken off, its first
words have one blank between them, the keyword is seen, and not in front of it, `IS` is seen nowhere
if the keyword is `AS`, and `PROCEDURE` is nowhere in a function. -/
structure Seen : Prop where
  stripped : statementText p.sql = p.text
  started : programStarts.any (startsWith · p.text) = true
  seen : SeenAt (upper p.kw) (lexemesText p.front) (p.kw ++ lexemesText p.back)
  first : ∀ u v, lexemesText p.front = u ++ v → v ≠ [] →
    ¬ SeenAt (upper p.kw) u (v ++ (p.kw ++ lexemesText p.back))
  alone : upper p.kw = "AS".toList → ∀ x y, p.text = x ++ y → ¬ SeenAt "IS".toList x y
  kind : p.function = true → Without "PROCEDURE".toList p.text

end Faithful

/-! ### The cut -/

/-- Only one of the two keywords starts here. -/
lemma upper_kw_of_startsWith {kw w y : List Char} (h : startsWith kw (w ++ y) = true)
    (hlen : kw.length = w.length) : upper w = kw := by
  rw [startsWith, List.isPrefixOf_iff_prefix, upper_append] at h
  have hpre : upper w <+: upper w ++ upper y := List.prefix_append _ _
  have heq := List.prefix_of_prefix_length_le h hpre (by rw [hlen, length_upper])
  exact (heq.eq_of_length (by rw [hlen, length_upper])).symm

/-- A procedure says so in its header. -/
lemma Program.hasProcedure (p : Program) (h : p.function = false) :
    "PROCEDURE".toList <:+: upper p.text := by
  have hmem : "PROCEDURE".toList ∈ wordsOf p.front := by
    refine p.header.subset ?_
    rw [headerWords, h, if_neg Bool.false_ne_true]
    exact List.mem_cons_of_mem _ (List.mem_append_right _ List.mem_cons_self)
  obtain ⟨t, ht, hw⟩ := List.mem_filterMap.1 hmem
  cases t with
  | word w =>
    obtain ⟨u, v, huv⟩ := List.append_of_mem ht
    rw [p.text_eq, huv, lexemesText_append, lexemesText_cons, upper_append, upper_append,
      upper_append, ← Option.some.inj hw]
    refine List.IsInfix.trans ?_ (List.prefix_append _ _).isInfix
    exact List.infix_append' _ _ _
  | sym c => cases hw
  | string body => cases hw
  | alternative mark delim content => cases hw
  | identifier body => cases hw
  | lineComment body => cases hw
  | blockComment body => cases hw

/-- **A program is cut at its header** if and only if the header is seen as it is. -/
theorem cutProgram_iff (p : Program) : cutProgram p.sql = some p.cut ↔ Seen p := by
  have hIS : ("IS".toList.head?.any fun c => c.isAlpha) = true := rfl
  have hAS : ("AS".toList.head?.any fun c => c.isAlpha) = true := rfl
  have hne : "IS".toList ≠ "AS".toList := by decide
  constructor
  · intro h
    rw [cutProgram] at h
    split_ifs at h with hstart
    obtain ⟨at_, hat, heq⟩ := Option.map_eq_some_iff.1 h
    rw [Program.cut, Cut.mk.injEq] at heq
    obtain ⟨htext, hsig, -, hproc⟩ := heq
    rw [htext] at hstart hat hsig hproc
    have hkind : p.function = true → Without "PROCEDURE".toList p.text := by
      intro hfunction hin
      rw [hfunction, find_isSome_iff.2 hin] at hproc
      cases hproc
    -- the keyword that is found is the one of the header
    have hfound : ∀ {kw : List Char}, (kw.head?.any fun c => c.isAlpha) = true →
        kw.length = 2 → findTopLevelKw p.text kw = some at_ →
        upper p.kw = kw ∧ SeenAt kw (lexemesText p.front) (p.kw ++ lexemesText p.back) ∧
          ∀ u v, lexemesText p.front = u ++ v → v ≠ [] →
            ¬ SeenAt kw u (v ++ (p.kw ++ lexemesText p.back)) := by
      intro kw hkw hlen hfind
      obtain ⟨x, y, hxy, rfl, hseen, hfirst⟩ := (findTopLevelKw_eq_some_iff hkw _ _).1 hfind
      rw [hxy, List.take_left] at hsig
      subst hsig
      rw [p.text_eq] at hxy
      obtain rfl := List.append_cancel_left hxy
      exact ⟨upper_kw_of_startsWith hseen.2.1 (hlen.trans p.length_kw.symm), hseen, hfirst⟩
    cases his : findTopLevelKw p.text "IS".toList with
    | some n =>
      rw [his, Option.some_or] at hat
      obtain ⟨hkw, hseen, hfirst⟩ := hfound hIS rfl (his.trans hat)
      rw [← hkw] at hseen hfirst
      exact ⟨htext, hstart, hseen, hfirst, fun has => absurd (hkw.symm.trans has) hne, hkind⟩
    | none =>
      rw [his, Option.none_or] at hat
      obtain ⟨hkw, hseen, hfirst⟩ := hfound hAS rfl hat
      rw [← hkw] at hseen hfirst
      exact ⟨htext, hstart, hseen, hfirst,
        fun _ => (findTopLevelKw_eq_none_iff hIS p.text).1 his, hkind⟩
  · rintro ⟨htext, hstart, hseen, hfirst, halone, hkind⟩
    have hfind : (findTopLevelKw p.text "IS".toList).or (findTopLevelKw p.text "AS".toList) =
        some (lexemesText p.front).length := by
      rcases p.keyword with hkw | hkw
      · rw [hkw] at hseen hfirst
        rw [(findTopLevelKw_eq_some_iff hIS _ _).2 ⟨_, _, p.text_eq, rfl, hseen, hfirst⟩,
          Option.some_or]
      · rw [hkw] at hseen hfirst
        rw [(findTopLevelKw_eq_none_iff hIS p.text).2 (halone hkw), Option.none_or,
          (findTopLevelKw_eq_some_iff hAS _ _).2 ⟨_, _, p.text_eq, rfl, hseen, hfirst⟩]
    have hproc : (find "PROCEDURE".toList (upper p.text)).isSome = !p.function := by
      cases hfunction : p.function with
      | true =>
        have hno : ¬ (find "PROCEDURE".toList (upper p.text)).isSome = true := fun hsome =>
          hkind hfunction (find_isSome_iff.1 hsome)
        exact Bool.eq_false_iff.2 hno
      | false => exact find_isSome_iff.2 (p.hasProcedure hfunction)
    have hsig : p.text.take (lexemesText p.front).length = lexemesText p.front := by
      rw [p.text_eq, List.take_left]
    have hback : p.text.drop ((lexemesText p.front).length + 2) = lexemesText p.back := by
      rw [p.text_eq, ← List.drop_drop, List.drop_left, ← p.length_kw, List.drop_left]
    simp only [cutProgram, htext, hstart, hfind, if_true, Option.map_some, hproc, hsig, hback]
    rfl

/-! ### Dollar quotes -/

/-- **The text between the quotes is read as it is written** if and only if no quote is in it. -/
theorem dollarBody_iff (body : List Char) :
    dollarBody (quoted body) =
        some (" ".toList ++ body ++ " ; ".toList, " LANGUAGE plpgsql".toList) ↔
      ¬ "$plsql$".toList <:+: body := by
  have hblank : ' ' ∉ "$plsql$".toList := by decide
  have hne : "$plsql$".toList ≠ [] := by decide
  have hfront : find "$plsql$".toList
      ("; ".toList ++ ("$plsql$".toList ++ " LANGUAGE plpgsql".toList)) = some "; ".toList.length := by
    decide
  have htext : quoted body = ' ' :: (body ++ ' ' :: ("; ".toList ++
      ("$plsql$".toList ++ " LANGUAGE plpgsql".toList))) := by
    rw [quoted, List.append_assoc]
    exact congrArg (' ' :: ·) (congrArg (body ++ ·) (by decide))
  have hopen : " ".toList ++ body ++ " ; ".toList = ' ' :: (body ++ ' ' :: "; ".toList) := by
    rw [List.append_assoc]
    rfl
  rw [dollarBody, htext, hopen]
  exact cutAt_barrier_iff hblank hne hfront

section Main

variable (normalize common loops : List Char → Option (List Char))

/-- **When a program is cut at its header, and its body is read as it is written.** -/
theorem program_faithful_iff (p : Program) :
    Faithful normalize common loops p ↔
      Seen p ∧ (normalize (returnsClause p.cut)).isSome = true ∧
        ∃ body, programBody common loops p.cut.body = some body ∧
          ¬ "$plsql$".toList <:+: body := by
  rw [Faithful, cutProgram_iff]
  constructor
  · rintro ⟨hseen, sig, body, -, hsig, hbody, hread⟩
    refine ⟨hseen, ?_, body, hbody, (dollarBody_iff body).1 hread⟩
    rw [hsig]
    rfl
  · rintro ⟨hseen, hsome, body, hbody, hno⟩
    obtain ⟨sig, hsig⟩ := Option.isSome_iff_exists.1 hsome
    refine ⟨hseen, sig, body, ?_, hsig, hbody, (dollarBody_iff body).2 hno⟩
    rw [rewriteProgram, (cutProgram_iff p).2 hseen, Option.bind_some, hsig, Option.bind_some,
      hbody, Option.map_some]

end Main

/-! ### Programs -/

/-- No word of a header is a keyword. -/
lemma first_of_words {front : List Lexeme}
    (h : (wordsOf front).all (fun w => w != "IS".toList && w != "AS".toList) = true)
    {u v : List Lexeme} {w : List Char} (hfront : front = u ++ .word w :: v)
    (hw : upper w = "IS".toList ∨ upper w = "AS".toList) : False := by
  have hmem : upper w ∈ wordsOf front := by
    refine List.mem_filterMap.2 ⟨.word w, ?_, rfl⟩
    rw [hfront]
    exact List.mem_append_right u List.mem_cons_self
  have hne := List.all_eq_true.1 h _ hmem
  rcases hw with hw | hw <;> rw [hw] at hne <;> exact absurd hne (by decide)

/-- `CREATE FUNCTION f RETURN NUMBER IS BEGIN RETURN 1; END;` and a slash on the next line. -/
def returnsOne : Program where
  before := []
  front := [.word "CREATE".toList, .sym ' ', .word "FUNCTION".toList, .sym ' ', .word "f".toList,
    .sym ' ', .word "RETURN".toList, .sym ' ', .word "NUMBER".toList, .sym ' ']
  kw := "IS".toList
  back := [.sym ' ', .word "BEGIN".toList, .sym ' ', .word "RETURN".toList, .sym ' ',
    .word "1".toList, .sym ';', .sym ' ', .word "END".toList, .sym ';']
  after := "\n/".toList
  orReplace := false
  function := true
  header := by decide
  keyword := Or.inl rfl
  lexed := lexed_of_plain (by decide)
  trimmed := ⟨by decide, by decide, by decide⟩
  level := rfl
  first := fun _ _ _ hfront hw => (first_of_words rfl hfront hw).elim
  spaceBefore := fun c hc => absurd hc (List.not_mem_nil)
  spaceAfter := by decide

/-- A function with `IS` in its header only. -/
theorem returnsOne_faithful : Faithful some some some returnsOne :=
  (program_faithful_iff some some some returnsOne).2
    ⟨(cutProgram_iff returnsOne).1 (by decide), rfl, _, rfl, by decide⟩

/-- `CREATE PROCEDURE p AS BEGIN x := y IS NULL; END;`. -/
def nullTest : Program where
  before := []
  front := [.word "CREATE".toList, .sym ' ', .word "PROCEDURE".toList, .sym ' ', .word "p".toList,
    .sym ' ']
  kw := "AS".toList
  back := [.sym ' ', .word "BEGIN".toList, .sym ' ', .word "x".toList, .sym ' ', .sym ':', .sym '=',
    .sym ' ', .word "y".toList, .sym ' ', .word "IS".toList, .sym ' ', .word "NULL".toList,
    .sym ';', .sym ' ', .word "END".toList, .sym ';']
  after := []
  orReplace := false
  function := false
  header := by decide
  keyword := Or.inr rfl
  lexed := lexed_of_plain (by decide)
  trimmed := ⟨by decide, by decide, by decide⟩
  level := rfl
  first := fun _ _ _ hfront hw => (first_of_words rfl hfront hw).elim
  spaceBefore := fun c hc => absurd hc (List.not_mem_nil)
  spaceAfter := fun c hc => absurd hc (List.not_mem_nil)

/-- A procedure with `AS` in its header is cut at the `IS` of a condition in its body. -/
theorem nullTest_not_faithful :
    ¬ ∃ normalize common loops, Faithful normalize common loops nullTest := by
  rintro ⟨normalize, common, loops, hcut, -⟩
  exact absurd hcut (by decide)

end DbSaci.Translate.Plsql
