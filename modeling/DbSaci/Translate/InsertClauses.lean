import DbSaci.Translate.InsertAll

set_option relaxedAutoImplicit false
set_option autoImplicit false

/-!
# The clauses of a multi-table `INSERT`

The clauses as they are written, with any white space between their parts and any letter case of
the keywords, and what the loops of the two passes make of them.

## Main definitions

* `Keyword`, `WhenClause`, `ElseClause`, `IntoClause`, `Clause` — clauses as they are written.
* `Clause.write` — the text of a clause in front of a text.
* `Clause.Readable` — the texts in a clause do not get in the way of the searches.
* `Clause.Spaced` — the white space is where the passes look for it.
* `expected` — the targets the clauses stand for.

## Main results

* `find_then` — the search for ` THEN` ends at the `THEN` of the clause.
* `readClauses_write` — clauses that are spaced are read as expected by both loops.
-/

namespace DbSaci.Translate

open Text

/-- A keyword, in the letter case it is written in. -/
structure Keyword (k : String) where
  text : List Char
  spelled : upper text = k.toList

/-- `WHEN cond THEN`. -/
structure WhenClause where
  kwWhen : Keyword "WHEN"
  gapWhen : List Char
  cond : List Char
  gapThen : List Char
  kwThen : Keyword "THEN"
  gapEnd : List Char
  gaps : Gap gapWhen ∧ Gap gapThen ∧ Gap gapEnd
  apart : gapWhen ≠ [] ∧ gapThen ≠ [] ∧ gapEnd ≠ []
  trimmed : Trimmed cond

/-- `ELSE`. -/
structure ElseClause where
  kwElse : Keyword "ELSE"
  gapEnd : List Char
  gaps : Gap gapEnd
  apart : gapEnd ≠ []

/-- `INTO table [(cols)] VALUES (values)`. -/
structure IntoClause where
  kwInto : Keyword "INTO"
  gapInto : List Char
  table : List Char
  gapTable : List Char
  cols : Option (List Char)
  gapCols : List Char
  kwValues : Keyword "VALUES"
  gapValues : List Char
  values : List Char
  gapEnd : List Char
  gaps : Gap gapInto ∧ Gap gapTable ∧ Gap gapCols ∧ Gap gapValues ∧ Gap gapEnd
  apart : gapInto ≠ [] ∧ (cols = none → gapTable ≠ [])
  named : table ≠ []

/-- One clause. -/
inductive Clause
  | when (w : WhenClause)
  | otherwise (e : ElseClause)
  | into (i : IntoClause)

namespace IntoClause

/-- The column list with its parentheses. -/
def colsText (i : IntoClause) : List Char :=
  match i.cols with
  | none => []
  | some c => '(' :: (c ++ [')'])

/-- The clause without the white space at its end, in front of a text. -/
def writeCore (i : IntoClause) (rest : List Char) : List Char :=
  i.kwInto.text ++ (i.gapInto ++ (i.table ++ (i.gapTable ++ (i.colsText ++ (i.gapCols ++
    (i.kwValues.text ++ (i.gapValues ++ ('(' :: (i.values ++ ')' :: rest)))))))))

/-- Where the row goes, and which columns it gets. -/
def target (i : IntoClause) : List Char × List Char × List Char := (i.table, i.colsText, i.values)

end IntoClause

namespace Clause

/-- The text of a clause in front of a text. -/
def write : Clause → List Char → List Char
  | when w, rest =>
    w.kwWhen.text ++ (w.gapWhen ++ (w.cond ++ (w.gapThen ++ (w.kwThen.text ++ (w.gapEnd ++ rest)))))
  | otherwise e, rest => e.kwElse.text ++ (e.gapEnd ++ rest)
  | into i, rest => i.writeCore (i.gapEnd ++ rest)

/-- The number of `INTO` clauses. -/
def intoCount (cs : List Clause) : ℕ := cs.countP fun c => c matches into _

end Clause

/-- The text of several clauses in front of a text. -/
def writeAll (cs : List Clause) (rest : List Char) : List Char := cs.foldr Clause.write rest

@[simp] lemma writeAll_nil (rest : List Char) : writeAll [] rest = rest := rfl

@[simp] lemma writeAll_cons (c : Clause) (cs : List Clause) (rest : List Char) :
    writeAll (c :: cs) rest = c.write (writeAll cs rest) := rfl

lemma writeAll_append (cs ds : List Clause) (rest : List Char) :
    writeAll (cs ++ ds) rest = writeAll cs (writeAll ds rest) := List.foldr_append

/-- The targets the clauses stand for, with the condition that is in force and the conditions so
far. -/
def expected : Option When → List (List Char) → List Clause → List Target
  | _, _, [] => []
  | _, prior, .when w :: cs => expected (some (.cond w.cond)) (prior ++ [w.cond]) cs
  | _, prior, .otherwise _ :: cs => expected (some (.noneOf prior)) prior cs
  | pending, prior, .into i :: cs =>
    ⟨i.table, i.colsText, i.values, pending⟩ :: expected pending prior cs

/-! ### What the searches rely on -/

namespace Clause

/-- The texts in a clause do not get in the way: they are ASCII but for the values, their
parentheses and quotes are closed, none has the word `VALUES` in it but perhaps the values, a
condition no ` THEN` in front of it or in it, and a table name no white space, quote or
parenthesis. -/
def Readable : Clause → Prop
  | when w => Ascii w.cond ∧ Closed w.cond ∧ Without "VALUES".toList w.cond ∧
      Without " THEN".toList (' ' :: w.cond)
  | otherwise _ => True
  | into i => Ascii i.table ∧ Without "VALUES".toList i.table ∧
      (∀ c ∈ i.table, isNameChar c = true ∧ c ≠ '\'' ∧ c ≠ '"' ∧ c ≠ ')') ∧
      (∀ cols ∈ i.cols, Ascii cols ∧ Closed cols ∧ Without "VALUES".toList cols) ∧
      Closed i.values

/-- The passes find the keywords of the clause: a blank follows `WHEN`, `ELSE` and `INTO`, and one
precedes `THEN`; and there is a column list. -/
def Spaced : Clause → Prop
  | when w => w.gapWhen.head? = some ' ' ∧ w.gapThen.getLast? = some ' '
  | otherwise e => e.gapEnd.head? = some ' '
  | into i => i.gapInto.head? = some ' ' ∧ i.cols.isSome

instance : ∀ c : Clause, Decidable c.Readable
  | when w => inferInstanceAs (Decidable (Ascii w.cond ∧ _))
  | otherwise _ => inferInstanceAs (Decidable True)
  | into i => inferInstanceAs (Decidable (Ascii i.table ∧ _))

instance : ∀ c : Clause, Decidable c.Spaced
  | when w => inferInstanceAs (Decidable (w.gapWhen.head? = some ' ' ∧ _))
  | otherwise e => inferInstanceAs (Decidable (e.gapEnd.head? = some ' '))
  | into i => inferInstanceAs (Decidable (i.gapInto.head? = some ' ' ∧ _))

end Clause

/-! ### Keywords and prefixes -/

namespace Keyword

variable {k : String} (kw : Keyword k)

lemma length_text : kw.text.length = k.toList.length := by
  rw [← kw.spelled, length_upper]

lemma startsWith_append (word rest : List Char) :
    startsWith word (kw.text ++ rest) = word.isPrefixOf (k.toList ++ upper rest) := by
  rw [startsWith, upper_append, kw.spelled]

lemma drop_append (rest : List Char) : (kw.text ++ rest).drop k.toList.length = rest := by
  rw [← kw.length_text, List.drop_left]

/-- A keyword does not start with white space. -/
lemma trimStart_append {d : Char} {t : List Char} (hk : k.toList = d :: t)
    (hd : isSpace d = false) (rest : List Char) :
    trimStart (kw.text ++ rest) = kw.text ++ rest := by
  have hs := kw.spelled
  cases htext : kw.text with
  | nil =>
    rw [htext, hk] at hs
    cases hs
  | cons c s =>
    refine trimStart_of_head ?_ (s ++ rest)
    by_contra hc
    rw [Bool.not_eq_false] at hc
    rw [htext, hk, upper_cons, List.cons.injEq, toUpper_of_isSpace hc] at hs
    rw [hs.1, hd] at hc
    cases hc

end Keyword

lemma toUpper_of_isWhitespace {c : Char} (h : c.isWhitespace = true) : c.toUpper = c :=
  toUpper_of_isSpace (isSpace_of_isWhitespace h)

/-- A keyword and a blank stand at the start of a keyword and white space exactly when the white
space starts with a blank. -/
lemma startsWith_blank_iff {k : String} (kw : Keyword k) {gap : List Char} (hg : Gap gap)
    (hne : gap ≠ []) (rest : List Char) :
    startsWith (k.toList ++ [' ']) (kw.text ++ (gap ++ rest)) = true ↔ gap.head? = some ' ' := by
  obtain ⟨g, gs, rfl⟩ := List.exists_cons_of_ne_nil hne
  have hup : g.toUpper = g := toUpper_of_isWhitespace (hg g List.mem_cons_self)
  rw [kw.startsWith_append, List.isPrefixOf_iff_prefix, List.prefix_append_right_inj]
  simp [hup, List.cons_prefix_cons, eq_comm]

/-- A keyword does not start with another word whose first letter differs. -/
lemma startsWith_other {k : String} (kw : Keyword k) {c d : Char} {w t : List Char}
    (hk : k.toList = d :: t) (hcd : c ≠ d) (rest : List Char) :
    startsWith (c :: w) (kw.text ++ rest) = false := by
  rw [kw.startsWith_append, hk, ← Bool.not_eq_true, List.isPrefixOf_iff_prefix]
  simp [List.cons_prefix_cons, hcd]

/-! ### White space does not complete a word -/

lemma upper_gap {g : List Char} (hg : Gap g) : upper g = g := by
  rw [upper]
  conv_rhs => rw [← List.map_id g]
  exact List.map_congr_left fun c hc => toUpper_of_isWhitespace (hg c hc)

/-- Letters that do not start a word keep it from occurring. -/
lemma not_infix_append_of_ne {c : Char} {w x s : List Char} (hx : ∀ d ∈ x, d ≠ c)
    (hs : ¬ c :: w <:+: s) : ¬ c :: w <:+: x ++ s := by
  induction x with
  | nil => exact hs
  | cons d x ih =>
    simp only [List.mem_cons, forall_eq_or_imp] at hx
    rw [List.cons_append, List.infix_cons_iff]
    rintro (hpre | hinf)
    · exact hx.1 (List.cons_prefix_cons.1 hpre).1.symm
    · exact ih hx.2 hinf

/-- A word after a blank that does not occur after one blank does not occur after white space. -/
lemma not_infix_gap_append {c : Char} {w s : List Char} (hc : c.isWhitespace = false)
    {g : List Char} (hg : Gap g) (hs : ¬ ' ' :: c :: w <:+: ' ' :: s) :
    ¬ ' ' :: c :: w <:+: g ++ s := by
  induction g with
  | nil => exact fun h => hs (h.trans (List.suffix_cons ' ' s).isInfix)
  | cons d g ih =>
    rw [List.cons_append, List.infix_cons_iff]
    rintro (hpre | hinf)
    · obtain ⟨rfl, htail⟩ := List.cons_prefix_cons.1 hpre
      cases g with
      | nil => exact hs hpre.isInfix
      | cons e g =>
        obtain rfl := (List.cons_prefix_cons.1 htail).1
        rw [hg c (by simp)] at hc
        cases hc
    · exact ih (fun e he => hg e (List.mem_cons_of_mem _ he)) hinf

/-- A word is no longer than the text before white space. -/
lemma prefix_of_prefix_append_gap {w s g : List Char} (hw : ∀ c ∈ w, c.isWhitespace = false)
    (hg : Gap g) (h : w <+: s ++ g) : w <+: s := by
  rcases Nat.lt_or_ge s.length w.length with hlt | hge
  · obtain ⟨r, rfl⟩ := List.prefix_of_prefix_length_le (List.prefix_append s g) h hlt.le
    rw [List.prefix_append_right_inj] at h
    cases r with
    | nil => simp at hlt
    | cons c r =>
      obtain ⟨t, rfl⟩ := h
      have h1 := hw c (by simp)
      rw [hg c (by simp)] at h1
      cases h1
  · exact List.prefix_of_prefix_length_le h (List.prefix_append s g) hge

/-- White space at the end of a text does not complete a word. -/
lemma not_infix_append_gap {c : Char} {w s g : List Char} (hwne : w ≠ [])
    (hw : ∀ c ∈ w, c.isWhitespace = false) (hg : Gap g) (hs : ¬ c :: w <:+: s) :
    ¬ c :: w <:+: s ++ g := by
  induction s with
  | nil =>
    rintro ⟨a, b, hab⟩
    obtain ⟨d, w, rfl⟩ := List.exists_cons_of_ne_nil hwne
    have h1 := hw d List.mem_cons_self
    rw [hg d (by rw [← List.nil_append g, ← hab]; simp)] at h1
    cases h1
  | cons x s ih =>
    rw [List.cons_append, List.infix_cons_iff]
    rintro (hpre | hinf)
    · obtain ⟨rfl, htail⟩ := List.cons_prefix_cons.1 hpre
      have hpre' := prefix_of_prefix_append_gap hw hg htail
      exact hs (List.cons_prefix_cons.2 ⟨rfl, hpre'⟩).isInfix
    · exact ih (fun h => hs (h.trans (List.suffix_cons x s).isInfix)) hinf

/-! ### Reading a `WHEN` clause -/

/-- The text of a `WHEN` clause up to the white space character before `THEN`. -/
def WhenClause.head (w : WhenClause) : List Char :=
  w.kwWhen.text ++ (w.gapWhen ++ (w.cond ++ w.gapThen.dropLast))

section When

variable {w : WhenClause} (hr : (Clause.when w).Readable) (hs : (Clause.when w).Spaced)
  (rest : List Char)

include hs in
lemma write_when :
    (Clause.when w).write rest =
      w.head ++ (' ' :: (w.kwThen.text ++ (w.gapEnd ++ rest))) := by
  have hgap : w.gapThen.dropLast ++ [' '] = w.gapThen :=
    List.dropLast_append_getLast? ' ' hs.2
  conv_lhs => rw [Clause.write, ← hgap]
  simp [WhenClause.head]

lemma five_le_head (w : WhenClause) : 6 ≤ w.head.length := by
  have h1 := w.kwWhen.length_text
  have h2 := List.length_pos_of_ne_nil w.apart.1
  obtain ⟨hne, -, -⟩ := w.trimmed
  have h3 := List.length_pos_of_ne_nil hne
  simp only [WhenClause.head, List.length_append, h1]
  change 6 ≤ 4 + _
  omega

include hr in
/-- ` THEN` does not occur before the `THEN`. -/
lemma without_then_head : ¬ " THEN".toList <:+: upper w.head := by
  obtain ⟨hg, hg', -⟩ := w.gaps
  have hdrop : Gap w.gapThen.dropLast := fun c hc => hg' c (List.mem_of_mem_dropLast hc)
  rw [WhenClause.head, upper_append, upper_append, upper_append, w.kwWhen.spelled, upper_gap hg,
    upper_gap hdrop]
  refine not_infix_append_of_ne (by decide) (not_infix_gap_append (by decide) hg ?_)
  rw [← List.cons_append]
  exact not_infix_append_gap (by decide) (by decide) hdrop hr.2.2.2

include hr hs in
/-- **` THEN` is found where it stands.** -/
lemma find_then :
    find " THEN".toList (upper ((Clause.when w).write rest)) = some w.head.length := by
  rw [write_when hs, upper_append, upper_cons, upper_append, w.kwThen.spelled]
  have hfind := find_append (c := ' ') (t := "THEN".toList) (by decide) (upper w.head)
    (upper (w.gapEnd ++ rest)) (without_then_head hr)
  rw [length_upper] at hfind
  exact hfind

include hs in
/-- What stands between `WHEN` and `THEN` is the condition. -/
lemma cond_eq :
    trim ((((Clause.when w).write rest).take w.head.length).drop 5) = w.cond := by
  obtain ⟨hg, hg', -⟩ := w.gaps
  rw [write_when hs, List.take_left, WhenClause.head]
  obtain ⟨g, gs, hgs⟩ := List.exists_cons_of_ne_nil w.apart.1
  have hdrop : (w.kwWhen.text ++ (w.gapWhen ++ (w.cond ++ w.gapThen.dropLast))).drop 5 =
      gs ++ (w.cond ++ w.gapThen.dropLast) := by
    have h4 := w.kwWhen.drop_append (w.gapWhen ++ (w.cond ++ w.gapThen.dropLast))
    change List.drop 4 _ = _ at h4
    rw [show 5 = 4 + 1 from rfl, ← List.drop_drop, h4, hgs]
    rfl
  rw [hdrop]
  exact trim_gaps (fun c hc => hg c (by rw [hgs]; exact List.mem_cons_of_mem _ hc))
    (fun c hc => hg' c (List.mem_of_mem_dropLast hc)) w.trimmed

include hs in
/-- What stands after `THEN` is the rest. -/
lemma after_then (hrest : trimStart rest = rest) :
    trimStart (((Clause.when w).write rest).drop (w.head.length + 5)) = rest := by
  have h4 := w.kwThen.drop_append (w.gapEnd ++ rest)
  change List.drop 4 _ = _ at h4
  rw [write_when hs, ← List.drop_drop, List.drop_left, List.drop_succ_cons, h4,
    trimStart_gap w.gaps.2.2, hrest]

end When

/-! ### Reading an `INTO` clause -/

namespace IntoClause

variable {i : IntoClause} (rest : List Char)

/-- The text from the `VALUES` of a clause on. -/
def fromValues (i : IntoClause) (rest : List Char) : List Char :=
  i.kwValues.text ++ (i.gapValues ++ ('(' :: (i.values ++ ')' :: rest)))

lemma writeCore_eq : i.writeCore rest =
    i.kwInto.text ++ (i.gapInto ++ (i.table ++ (i.gapTable ++ (i.colsText ++ (i.gapCols ++
      i.fromValues rest))))) := rfl

lemma colsText_append {c : List Char} (hc : i.cols = some c) (rest : List Char) :
    i.colsText ++ rest = '(' :: (c ++ ')' :: rest) := by
  simp [colsText, hc]

variable (hr : (Clause.into i).Readable)

include hr in
/-- What stands after `INTO` is the table name. -/
lemma after_into : trimStart ((i.writeCore rest).drop 5) =
    i.table ++ (i.gapTable ++ (i.colsText ++ (i.gapCols ++ i.fromValues rest))) := by
  obtain ⟨g, gs, hgs⟩ := List.exists_cons_of_ne_nil i.apart.1
  obtain ⟨c, cs, hcs⟩ := List.exists_cons_of_ne_nil i.named
  have h4 := i.kwInto.drop_append (i.gapInto ++ (i.table ++ (i.gapTable ++ (i.colsText ++
    (i.gapCols ++ i.fromValues rest)))))
  change List.drop 4 _ = _ at h4
  have hgap : Gap gs := fun c hc => i.gaps.1 c (by rw [hgs]; exact List.mem_cons_of_mem _ hc)
  have hname := (hr.2.2.1 c (by simp [hcs])).1
  rw [writeCore_eq, show 5 = 4 + 1 from rfl, ← List.drop_drop, h4, hgs, List.cons_append,
    List.drop_succ_cons, List.drop_zero, trimStart_gap hgap, hcs]
  refine trimStart_of_head ?_ _
  simp only [isNameChar, Bool.not_eq_true', Bool.or_eq_false_iff] at hname
  exact hname.1

/-- After the table name stands no character of it. -/
lemma head_after_table : ∀ c ∈ (i.gapTable ++ (i.colsText ++ rest)).head?,
    isNameChar c = false := by
  cases hgap : i.gapTable with
  | nil =>
    cases hcols : i.cols with
    | none => exact absurd hgap (i.apart.2 hcols)
    | some c =>
      rw [List.nil_append, colsText_append hcols]
      rintro _ ⟨⟩
      rfl
  | cons g gs =>
    have hg := isSpace_of_isWhitespace (i.gaps.2.1 g (by simp [hgap]))
    rintro _ ⟨⟩
    simp [isNameChar, hg]

include hr in
lemma takeWhile_table :
    (i.table ++ (i.gapTable ++ (i.colsText ++ rest))).takeWhile isNameChar = i.table ∧
    (i.table ++ (i.gapTable ++ (i.colsText ++ rest))).dropWhile isNameChar =
      i.gapTable ++ (i.colsText ++ rest) := by
  have hname : ∀ c ∈ i.table, isNameChar c = true := fun c hc => (hr.2.2.1 c hc).1
  have hhead := head_after_table (i := i) rest
  rw [List.takeWhile_append_of_pos hname, List.dropWhile_append_of_pos hname]
  cases htail : i.gapTable ++ (i.colsText ++ rest) with
  | nil => simp
  | cons c cs =>
    rw [htail] at hhead
    have hc : isNameChar c = false := hhead c rfl
    simp [hc]

/-- What stands after the table name is the column list. -/
lemma after_table {c : List Char} (hc : i.cols = some c) :
    trimStart (i.gapTable ++ (i.colsText ++ rest)) = '(' :: (c ++ ')' :: rest) := by
  rw [trimStart_gap i.gaps.2.1, colsText_append hc]
  exact trimStart_of_head (by decide) _

/-- What stands after the column list is `VALUES`. -/
lemma after_cols : trimStart (i.gapCols ++ i.fromValues rest) = i.fromValues rest := by
  rw [trimStart_gap i.gaps.2.2.1]
  exact i.kwValues.trimStart_append (d := 'V') (t := "ALUES".toList) rfl (by decide) _

lemma startsWith_values : startsWith "VALUES".toList (i.fromValues rest) = true := by
  rw [fromValues, i.kwValues.startsWith_append, List.isPrefixOf_iff_prefix]
  exact List.prefix_append _ _

/-- What stands after `VALUES` is the list. -/
lemma after_values : trimStart ((i.fromValues rest).drop 6) = '(' :: (i.values ++ ')' :: rest) := by
  have h6 := i.kwValues.drop_append (i.gapValues ++ ('(' :: (i.values ++ ')' :: rest)))
  change List.drop 6 _ = _ at h6
  rw [fromValues, h6, trimStart_gap i.gaps.2.2.2.1]
  exact trimStart_of_head (by decide) _

/-- A text in parentheses, and what stands after them. -/
lemma take_paren (s : List Char) :
    ('(' :: (s ++ ')' :: rest)).take (s.length + 2) = '(' :: (s ++ [')']) ∧
    ('(' :: (s ++ ')' :: rest)).drop (s.length + 2) = rest := by
  constructor
  · rw [List.take_succ_cons, show s ++ ')' :: rest = (s ++ [')']) ++ rest by simp,
      List.take_left' (by simp)]
  · rw [List.drop_succ_cons, show s ++ ')' :: rest = (s ++ [')']) ++ rest by simp,
      List.drop_left' (by simp)]

/-- What stands between parentheses. -/
lemma between_paren (s : List Char) :
    between ('(' :: (s ++ ')' :: rest)) (s.length + 1) = .ok s := by
  have hsize : '('.utf8Size = 1 := rfl
  have hb : isCharBoundary 1 ('(' :: (s ++ ')' :: rest)) = true := by
    simp [isCharBoundary, hsize]
  rw [between, if_neg (by simp [hb]), List.take_succ_cons, List.drop_succ_cons, List.drop_zero,
    List.take_left]

end IntoClause

/-! ### The loops -/

/-- A clause starts with a keyword. -/
lemma trimStart_write (c : Clause) (rest : List Char) :
    trimStart (c.write rest) = c.write rest := by
  cases c with
  | when w => exact w.kwWhen.trimStart_append (d := 'W') (t := "HEN".toList) rfl (by decide) _
  | otherwise e => exact e.kwElse.trimStart_append (d := 'E') (t := "LSE".toList) rfl (by decide) _
  | into i => exact i.kwInto.trimStart_append (d := 'I') (t := "NTO".toList) rfl (by decide) _

lemma trimStart_writeAll (cs : List Clause) : trimStart (writeAll cs []) = writeAll cs [] := by
  cases cs with
  | nil => rfl
  | cons c cs => exact trimStart_write c _

lemma length_write_lt (c : Clause) (rest : List Char) : rest.length < (c.write rest).length := by
  cases c with
  | when w =>
    have h := List.length_pos_of_ne_nil w.apart.1
    simp only [Clause.write, List.length_append]
    omega
  | otherwise e =>
    have h := List.length_pos_of_ne_nil e.apart
    simp only [Clause.write, List.length_append]
    omega
  | into i =>
    simp only [Clause.write, IntoClause.writeCore, List.length_append, List.length_cons]
    omega

/-- What the loops test at the start of a clause. -/
lemma startsWith_when (w : WhenClause) (rest : List Char) :
    startsWith "WHEN ".toList ((Clause.when w).write rest) = true ↔
      w.gapWhen.head? = some ' ' :=
  startsWith_blank_iff w.kwWhen w.gaps.1 w.apart.1 _

lemma startsWith_otherwise (e : ElseClause) (rest : List Char) :
    startsWith "WHEN ".toList ((Clause.otherwise e).write rest) = false ∧
    (startsWith "ELSE ".toList ((Clause.otherwise e).write rest) = true ↔
      e.gapEnd.head? = some ' ') :=
  ⟨startsWith_other e.kwElse (c := 'W') (d := 'E') (w := "HEN ".toList) rfl (by decide) _,
    startsWith_blank_iff e.kwElse e.gaps e.apart _⟩

lemma startsWith_into (i : IntoClause) (rest : List Char) :
    startsWith "WHEN ".toList ((Clause.into i).write rest) = false ∧
    startsWith "ELSE ".toList ((Clause.into i).write rest) = false ∧
    (startsWith "INTO ".toList ((Clause.into i).write rest) = true ↔
      i.gapInto.head? = some ' ') :=
  ⟨startsWith_other i.kwInto (c := 'W') (d := 'I') (w := "HEN ".toList) rfl (by decide) _,
    startsWith_other i.kwInto (c := 'E') (d := 'I') (w := "LSE ".toList) rfl (by decide) _,
    startsWith_blank_iff i.kwInto i.gaps.1 i.apart.1 _⟩

lemma after_else (e : ElseClause) {rest : List Char} (hrest : trimStart rest = rest) :
    trimStart (((Clause.otherwise e).write rest).drop 5) = rest := by
  obtain ⟨g, gs, hgs⟩ := List.exists_cons_of_ne_nil e.apart
  have h4 := e.kwElse.drop_append (e.gapEnd ++ rest)
  change List.drop 4 _ = _ at h4
  have hgap : Gap gs := fun c hc => e.gaps c (by rw [hgs]; exact List.mem_cons_of_mem _ hc)
  rw [Clause.write, show 5 = 4 + 1 from rfl, ← List.drop_drop, h4, hgs, List.cons_append,
    List.drop_succ_cons, List.drop_zero, trimStart_gap hgap, hrest]

lemma write_ne_nil (c : Clause) (rest : List Char) : c.write rest ≠ [] := by
  intro h
  have := length_write_lt c rest
  rw [h] at this
  exact absurd this (Nat.not_lt_zero _)

section Step

variable {fuel : ℕ} {pending : Option When} {prior : List (List Char)} {rest : List Char}

/-- One turn of the MariaDB loop at a `WHEN`. -/
lemma readClausesMariadb_when {w : WhenClause} (hr : (Clause.when w).Readable)
    (hs : (Clause.when w).Spaced) (hrest : trimStart rest = rest) :
    readClausesMariadb (fuel + 1) ((Clause.when w).write rest) pending prior =
      readClausesMariadb fuel rest (some (.cond w.cond)) (prior ++ [w.cond]) := by
  have h5 := five_le_head w
  rw [readClausesMariadb, if_neg (write_ne_nil _ _), if_pos ((startsWith_when w rest).2 hs.1),
    find_then hr hs]
  simp only [cond_eq hs, after_then hs rest hrest]
  rw [if_neg (by omega)]

/-- One turn of the MariaDB loop at an `ELSE`. -/
lemma readClausesMariadb_otherwise {e : ElseClause} (hs : (Clause.otherwise e).Spaced)
    (hrest : trimStart rest = rest) :
    readClausesMariadb (fuel + 1) ((Clause.otherwise e).write rest) pending prior =
      readClausesMariadb fuel rest (some (.noneOf prior)) prior := by
  obtain ⟨hw, he⟩ := startsWith_otherwise e rest
  rw [readClausesMariadb, if_neg (write_ne_nil _ _), if_neg (Bool.eq_false_iff.1 hw),
    if_pos (he.2 hs), after_else e hrest]

/-- One turn of the MariaDB loop at an `INTO`. -/
lemma readClausesMariadb_into {i : IntoClause} (hr : (Clause.into i).Readable)
    (hs : (Clause.into i).Spaced) (hrest : trimStart rest = rest) :
    readClausesMariadb (fuel + 1) ((Clause.into i).write rest) pending prior =
      (readClausesMariadb fuel rest pending prior).map
        (⟨i.table, i.colsText, i.values, pending⟩ :: ·) := by
  obtain ⟨hw, he, hi⟩ := startsWith_into i rest
  obtain ⟨c, hc⟩ := Option.isSome_iff_exists.1 hs.2
  obtain ⟨-, hclosed, -⟩ := hr.2.2.2.1 c hc
  have hcols : i.colsText = '(' :: (c ++ [')']) := by simp [IntoClause.colsText, hc]
  rw [readClausesMariadb, if_neg (write_ne_nil _ _), if_neg (Bool.eq_false_iff.1 hw),
    if_neg (Bool.eq_false_iff.1 he), if_pos (hi.2 hs.1)]
  simp only [Clause.write, IntoClause.after_into _ hr, (IntoClause.takeWhile_table _ hr).1,
    (IntoClause.takeWhile_table _ hr).2, IntoClause.after_table _ hc]
  have hopen : startsWith ['('] ('(' :: (c ++ ')' ::
      (i.gapCols ++ i.fromValues (i.gapEnd ++ rest)))) = true := by
    simp [startsWith, List.isPrefixOf]
  rw [if_pos hopen, matchingParen_closed hclosed]
  simp only [(IntoClause.take_paren _ c).1, (IntoClause.take_paren _ c).2, IntoClause.after_cols,
    IntoClause.startsWith_values, if_true, IntoClause.after_values]
  rw [matchingParen_closed hr.2.2.2.2]
  simp only [IntoClause.between_paren, (IntoClause.take_paren _ i.values).2,
    trimStart_gap i.gaps.2.2.2.2, hrest, hcols]
  cases readClausesMariadb fuel rest pending prior <;> rfl

/-- One turn of the PostgreSQL loop at a `WHEN`. -/
lemma readClauses_when {w : WhenClause} (hr : (Clause.when w).Readable)
    (hs : (Clause.when w).Spaced) (hrest : trimStart rest = rest) :
    readClauses (fuel + 1) ((Clause.when w).write rest) pending prior =
      readClauses fuel rest (some (.cond w.cond)) (prior ++ [w.cond]) := by
  have h5 := five_le_head w
  rw [readClauses, if_neg (write_ne_nil _ _), if_pos ((startsWith_when w rest).2 hs.1),
    find_then hr hs]
  simp only [Option.getD_some, cond_eq hs, after_then hs rest hrest]
  rw [if_neg (by omega)]

/-- One turn of the PostgreSQL loop at an `ELSE`. -/
lemma readClauses_otherwise {e : ElseClause} (hs : (Clause.otherwise e).Spaced)
    (hrest : trimStart rest = rest) :
    readClauses (fuel + 1) ((Clause.otherwise e).write rest) pending prior =
      readClauses fuel rest (some (.noneOf prior)) prior := by
  obtain ⟨hw, he⟩ := startsWith_otherwise e rest
  rw [readClauses, if_neg (write_ne_nil _ _), if_neg (Bool.eq_false_iff.1 hw), if_pos (he.2 hs),
    after_else e hrest]

/-- One turn of the PostgreSQL loop at an `INTO`. -/
lemma readClauses_into {i : IntoClause} (hr : (Clause.into i).Readable)
    (hs : (Clause.into i).Spaced) (hrest : trimStart rest = rest) :
    readClauses (fuel + 1) ((Clause.into i).write rest) pending prior =
      (readClauses fuel rest pending prior).map
        (⟨i.table, i.colsText, i.values, pending⟩ :: ·) := by
  obtain ⟨hw, he, hi⟩ := startsWith_into i rest
  obtain ⟨c, hc⟩ := Option.isSome_iff_exists.1 hs.2
  obtain ⟨-, hclosed, -⟩ := hr.2.2.2.1 c hc
  have hcols : i.colsText = '(' :: (c ++ [')']) := by simp [IntoClause.colsText, hc]
  rw [readClauses, if_neg (write_ne_nil _ _), if_neg (Bool.eq_false_iff.1 hw),
    if_neg (Bool.eq_false_iff.1 he), if_pos (hi.2 hs.1)]
  simp only [Clause.write, IntoClause.after_into _ hr, (IntoClause.takeWhile_table _ hr).1,
    (IntoClause.takeWhile_table _ hr).2, IntoClause.after_table _ hc]
  have hopen : startsWith ['('] ('(' :: (c ++ ')' ::
      (i.gapCols ++ i.fromValues (i.gapEnd ++ rest)))) = true := by
    simp [startsWith, List.isPrefixOf]
  simp only [hopen, if_true, matchingParen_closed hclosed, Option.getD_some,
    (IntoClause.take_paren _ c).1, (IntoClause.take_paren _ c).2, IntoClause.after_cols,
    IntoClause.startsWith_values, IntoClause.after_values, matchingParen_closed hr.2.2.2.2,
    IntoClause.between_paren, (IntoClause.take_paren _ i.values).2,
    trimStart_gap i.gaps.2.2.2.2, hrest, hcols]
  cases readClauses fuel rest pending prior <;> rfl

end Step

/-- **Spaced clauses are read as expected**, by both loops. -/
theorem readClauses_write {cs : List Clause} (hr : ∀ c ∈ cs, c.Readable)
    (hs : ∀ c ∈ cs, c.Spaced) (fuel : ℕ) (hf : (writeAll cs []).length < fuel)
    (pending : Option When) (prior : List (List Char)) :
    readClauses fuel (writeAll cs []) pending prior = .ok (expected pending prior cs) ∧
    readClausesMariadb fuel (writeAll cs []) pending prior =
      .ok (expected pending prior cs) := by
  induction cs generalizing fuel pending prior with
  | nil =>
    obtain ⟨fuel, rfl⟩ := Nat.exists_eq_succ_of_ne_zero (Nat.ne_zero_of_lt hf)
    exact ⟨rfl, rfl⟩
  | cons c cs ih =>
    obtain ⟨fuel, rfl⟩ := Nat.exists_eq_succ_of_ne_zero (Nat.ne_zero_of_lt hf)
    simp only [List.mem_cons, forall_eq_or_imp] at hr hs
    have hlen := length_write_lt c (writeAll cs [])
    rw [writeAll_cons] at hf ⊢
    have hf' : (writeAll cs []).length < fuel := by omega
    have hrest := trimStart_writeAll cs
    rw [Nat.succ_eq_add_one]
    cases c with
    | when w =>
      rw [readClauses_when hr.1 hs.1 hrest, readClausesMariadb_when hr.1 hs.1 hrest]
      exact ih hr.2 hs.2 fuel hf' _ _
    | otherwise e =>
      rw [readClauses_otherwise hs.1 hrest, readClausesMariadb_otherwise hs.1 hrest]
      exact ih hr.2 hs.2 fuel hf' _ _
    | into i =>
      obtain ⟨h1, h2⟩ := ih hr.2 hs.2 fuel hf' pending prior
      rw [readClauses_into hr.1 hs.1 hrest, readClausesMariadb_into hr.1 hs.1 hrest, h1, h2]
      exact ⟨rfl, rfl⟩

end DbSaci.Translate
