import DbSaci.Translate.SortTerms

set_option relaxedAutoImplicit false
set_option autoImplicit false

/-!
# Places for `NULL`

Oracle takes `NULL` as greater than all values, MariaDB as less. One pass puts a test in front of a
term with `NULLS FIRST` or `NULLS LAST`, another one in front of a term with `DESC`. Neither of them
puts one in front of a plain term, which Oracle sorts with `NULL` at the end.

## Main definitions

* `normalizeNullsOrdering`, `rewriteMariadbOrderByDescNulls` — the passes.
* `Term.Handled` — a place for `NULL` that is spelled as the first one expects it.
* `descTest` — the test of the second one.

## Main results

* `normalize_sortsAs_iff`, `descNulls_sortsAs_iff` — when the list of a pass sorts as the terms do.
* `nulls_placed_iff` — both of them.
* `plain_misplaced` — a plain term, and `ASC NULLS LAST`.
-/

namespace DbSaci.Translate.OrderBy

open Text Sorting

/-! ### The passes -/

/-- An expression without the word of a direction that is written in one of two ways. -/
def withoutWord (capital small e : List Char) : List Char :=
  ((stripSuffix capital e).or (stripSuffix small e)).getD e

/-- One term of `normalize_nulls_ordering`. -/
def normalizeTerm (term : List Char) : List Char :=
  let t := trim term
  let tu := upper t
  match stripSuffix " NULLS LAST".toList tu with
  | some head =>
    let e := withoutWord " DESC".toList " desc".toList (trim (t.take head.length))
    e ++ (" IS NULL".toList ++ (", ".toList ++ t.take (t.length - " NULLS LAST".toList.length)))
  | none =>
    match stripSuffix " NULLS FIRST".toList tu with
    | some head =>
      let e := trim (withoutWord " ASC".toList " asc".toList (trim (t.take head.length)))
      e ++ (" IS NOT NULL".toList ++
        (", ".toList ++ t.take (t.length - " NULLS FIRST".toList.length)))
    | none => t

/-- `normalize_nulls_ordering`: tests for places for `NULL`. -/
def normalizeNullsOrdering (order : List Char) : List Char :=
  commas ((splitTopLevelCommas order).map normalizeTerm)

/-- The loop of `find_top_level_kw_last`. -/
def findKwLastFuel (s kw : List Char) : ℕ → ℕ → Option ℕ → Option ℕ
  | 0, _, last => last
  | fuel + 1, base, last =>
    match findTopLevelKw (s.drop base) kw with
    | none => last
    | some rel => findKwLastFuel s kw fuel (base + rel + kw.length) (some (base + rel))

/-- `find_top_level_kw_last`: where a keyword stands last outside quotes and parentheses. -/
def findTopLevelKwLast (s kw : List Char) : Option ℕ := findKwLastFuel s kw s.length 0 none

/-- The clauses that `rewrite_mariadb_order_by_desc_nulls` leaves as they are. -/
def Skipped (clause : List Char) : Prop :=
  "NULLS".toList <:+: upper clause ∨ " LIMIT".toList <:+: upper clause ∨
    " FETCH".toList <:+: upper clause ∨ " OFFSET".toList <:+: upper clause ∨ '(' ∈ clause

instance (clause : List Char) : Decidable (Skipped clause) := by
  unfold Skipped
  infer_instance

/-- One term of `rewrite_mariadb_order_by_desc_nulls`. -/
def descNullsTerm (term : List Char) : List Char :=
  let t := trim term
  match stripSuffix " DESC".toList (upper t) with
  | some expr => trim (t.take expr.length) ++ (" IS NOT NULL".toList ++ (", ".toList ++ t))
  | none => t

/-- `rewrite_mariadb_order_by_desc_nulls`: tests for `DESC`. -/
def rewriteMariadbOrderByDescNulls (sql : List Char) : List Char :=
  match findTopLevelKwLast sql "ORDER BY".toList with
  | none => sql
  | some obAt =>
    let clause := trim (sql.drop (obAt + "ORDER BY".toList.length))
    if Skipped clause then sql
    else sql.take obAt ++ ("ORDER BY ".toList ++
      commas ((splitTopLevelCommas clause).map descNullsTerm))

/-! ### What terms end with -/

/-- The blanks of a place for `NULL` are single ones as far as it is looked at. -/
structure Place.Plain (p : Place) : Prop where
  nulls : p.nulls.blank = ' '
  gap : p.word.gap = []
  word : p.word.blank = ' '

lemma upper_gap {g : List Char} (hg : Gap g) : upper g = g := by
  rw [upper, List.map_congr_left fun c hc => toUpper_of_isSpace (isSpace_of_isWhitespace (hg c hc)),
    List.map_id']

lemma upper_written {word : List Char} (k : EndWord word) :
    upper k.written = k.gap ++ k.blank :: word := by
  rw [EndWord.written, upper_append, upper_cons, upper_gap k.isGap, k.spelled,
    toUpper_of_isSpace (isSpace_of_isWhitespace k.isBlank)]

/-- The text behind `strip_suffix`. -/
lemma stripSuffix_written {word v x : List Char} (k : EndWord word) (h : Word word)
    (hv : ∀ c ∈ v, isSpace c = false) :
    stripSuffix (' ' :: v) (x ++ k.written) =
      if v = k.text ∧ k.blank = ' ' then some (x ++ k.gap) else none := by
  have htext : x ++ k.written = (x ++ k.gap) ++ k.blank :: k.text := by simp [EndWord.written]
  have hiff := suffix_word_iff (u := []) (v := v) (z := x ++ k.gap)
    (isSpace_of_isWhitespace k.isBlank) hv (k.isWord h).solid
  rw [List.nil_append] at hiff
  rw [htext]
  by_cases hcond : v = k.text ∧ k.blank = ' '
  · obtain ⟨rfl, hblank⟩ := hcond
    rw [if_pos ⟨rfl, hblank⟩, hblank]
    exact stripSuffix_append _ _
  · rw [if_neg hcond]
    apply stripSuffix_eq_none
    rw [hiff]
    exact fun hsuffix => hcond ⟨hsuffix.1, hsuffix.2.1⟩

/-- An expression does not end with a direction. -/
lemma stripSuffix_expr {e v : List Char} (he : IsExpr e) {desc : Bool}
    (hup : upper v = directionWord desc) : stripSuffix (' ' :: v) e = none := by
  apply stripSuffix_eq_none
  rintro ⟨y, rfl⟩
  apply he.direction desc
  let k : EndWord (directionWord desc) := ⟨[], ' ', v, by decide, rfl, hup⟩
  have hlast : lastWord (y ++ ' ' :: v) = v :=
    lastWord_keyword k (word_directionWord desc) y
  rw [hlast, hup]

lemma directionWord_ne_placeWord (desc first : Bool) : directionWord desc ≠ placeWord first := by
  cases desc <;> cases first <;> decide

lemma placeWord_inj {first first' : Bool} (h : placeWord first = placeWord first') :
    first = first' := by
  revert h
  cases first <;> cases first' <;> decide

/-- An expression does not end with a place for `NULL`. -/
lemma not_suffix_expr {e : List Char} (he : IsExpr e) (first : Bool) :
    ¬ ' ' :: "NULLS".toList ++ ' ' :: placeWord first <:+ upper e := by
  intro h
  obtain ⟨z, v, rfl, hv⟩ := exists_of_suffix_upper h
  obtain ⟨v₁, v₂, rfl, hv₁, hv₂⟩ := List.map_eq_append_iff.1 hv
  obtain ⟨n, rfl, hn⟩ := eq_of_upper_blank hv₁
  obtain ⟨w, rfl, hw⟩ := eq_of_upper_blank hv₂
  let kn : EndWord "NULLS".toList := ⟨[], ' ', n, by decide, rfl, hn⟩
  let kw : EndWord (placeWord first) := ⟨[], ' ', w, by decide, rfl, hw⟩
  apply he.place first
  have htext : z ++ (' ' :: n ++ ' ' :: w) = (z ++ kn.written) ++ kw.written := by
    simp [EndWord.written, kn, kw]
  rw [htext, lastWord_keyword kw (word_placeWord first), beforeLast_keyword kw (word_placeWord first),
    trimEnd_keyword kn word_nulls, lastWord_keyword kn word_nulls]
  exact ⟨hn, hw⟩

namespace Term

variable (t : Term)

/-- The expression with its direction does not end with one. -/
lemma not_suffix_directed (first : Bool) :
    ¬ ' ' :: "NULLS".toList ++ ' ' :: placeWord first <:+ upper t.directed := by
  rw [directed]
  cases t.direction with
  | none =>
    rw [Option.elim_none, List.append_nil]
    exact not_suffix_expr t.isExpr first
  | some d =>
    rw [Option.elim_some, upper_append, upper_written, ← List.append_assoc,
      suffix_word_iff (isSpace_of_isWhitespace d.word.isBlank) (word_placeWord first).solid
        (word_directionWord d.desc).solid]
    exact fun h => directionWord_ne_placeWord _ _ h.1.symm

/-- **When a term ends with a place for `NULL`** as it is looked for. -/
theorem suffix_text_iff (first : Bool) :
    ' ' :: "NULLS".toList ++ ' ' :: placeWord first <:+ upper t.text ↔
      ∃ p ∈ t.place, p.first = first ∧ p.Plain := by
  rw [text]
  cases t.place with
  | none =>
    rw [Option.elim_none, List.append_nil]
    exact iff_of_false (t.not_suffix_directed first) (by simp)
  | some p =>
    have htext : upper (t.directed ++ (p.nulls.written ++ p.word.written)) =
        ((upper t.directed ++ (p.nulls.gap ++ p.nulls.blank :: "NULLS".toList)) ++ p.word.gap) ++
          p.word.blank :: placeWord p.first := by
      rw [upper_append, upper_append, upper_written, upper_written]
      simp only [List.append_assoc]
    rw [Option.elim_some, htext, suffix_word_iff (isSpace_of_isWhitespace p.word.isBlank)
      (word_placeWord first).solid (word_placeWord p.first).solid]
    have hfront : ' ' :: "NULLS".toList <:+
        (upper t.directed ++ (p.nulls.gap ++ p.nulls.blank :: "NULLS".toList)) ++ p.word.gap ↔
        p.nulls.blank = ' ' ∧ p.word.gap = [] := by
      rcases List.eq_nil_or_concat p.word.gap with hgap | ⟨g, c, hgap⟩
      · rw [hgap, List.append_nil, ← List.append_assoc]
        have h := suffix_word_iff (u := []) (v := "NULLS".toList)
          (z := upper t.directed ++ p.nulls.gap) (isSpace_of_isWhitespace p.nulls.isBlank)
          word_nulls.solid word_nulls.solid
        rw [List.nil_append] at h
        rw [h]
        simp
      · have hc : isSpace c = true := by
          apply isSpace_of_isWhitespace
          apply p.word.isGap
          rw [hgap]
          simp
        refine iff_of_false ?_ (by simp [hgap])
        rw [hgap, List.concat_eq_append, ← List.append_assoc]
        exact not_suffix_of_blank hc word_nulls [' ']
    rw [hfront]
    constructor
    · rintro ⟨hword, hblank, hnulls, hgap⟩
      exact ⟨p, rfl, (placeWord_inj hword).symm, hnulls, hgap, hblank⟩
    · rintro ⟨q, hq, rfl, hplain⟩
      obtain rfl := Option.some.inj hq
      exact ⟨rfl, hplain.word, hplain.nulls, hplain.gap⟩

end Term

/-! ### What is read in the texts that are put together -/

/-- A text of parts that are read as keys if a condition holds, and not all read if it does not. -/
def Lowered (good : Prop) (keys : List Key) (text : List Char) : Prop :=
  ∃ x xs, text = commas (x :: xs) ∧ (∀ y ∈ x :: xs, Part y) ∧
    (good → (x :: xs).mapM readKey = some keys) ∧ (¬ good → (x :: xs).mapM readKey = none)

lemma Lowered.append {good good' : Prop} {ks ks' : List Key} {s s' : List Char}
    (h : Lowered good ks s) (h' : Lowered good' ks' s') :
    Lowered (good ∧ good') (ks ++ ks') (s ++ (", ".toList ++ s')) := by
  obtain ⟨x, xs, rfl, hpart, hgood, hbad⟩ := h
  obtain ⟨y, ys, rfl, hpart', hgood', hbad'⟩ := h'
  refine ⟨x, xs ++ y :: ys, ?_, ?_, ?_, ?_⟩
  · rw [← commas_append (List.cons_ne_nil x xs) (List.cons_ne_nil y ys)]
    rfl
  · intro z hz
    rw [← List.cons_append] at hz
    rcases List.mem_append.1 hz with hz | hz
    · exact hpart z hz
    · exact hpart' z hz
  · rintro ⟨hg, hg'⟩
    rw [← List.cons_append, List.mapM_append, hgood hg, hgood' hg']
    rfl
  · intro hnot
    rw [← List.cons_append, List.mapM_append]
    by_cases hg : good
    · rw [hgood hg, hbad' fun hg' => hnot ⟨hg, hg'⟩]
      rfl
    · rw [hbad hg]
      rfl

/-- One part. -/
lemma lowered_singleton {good : Prop} {k : Key} {x : List Char} (hx : Part x)
    (hgood : good → readKey x = some k) (hbad : ¬ good → readKey x = none) :
    Lowered good [k] x := by
  refine ⟨x, [], rfl, ?_, fun hg => ?_, fun hg => ?_⟩
  · intro y hy
    rwa [List.mem_singleton.1 hy]
  · rw [List.mapM_cons, hgood hg]
    rfl
  · rw [List.mapM_cons, hbad hg]
    rfl

/-- The texts for the terms of a list. -/
lemma lowered_commas {f : List Char → List Char} {good : Term → Prop} {test : Term → Option Bool}
    (h : ∀ t : Term, Lowered (good t) (keys (test t) t) (f t.written)) (t : Term) (ts : List Term) :
    Lowered (∀ u ∈ t :: ts, good u) ((t :: ts).flatMap fun u => keys (test u) u)
      (commas ((t :: ts).map fun u => f u.written)) := by
  induction ts generalizing t with
  | nil =>
    have hall : (∀ u ∈ [t], good u) = good t := by simp
    rw [hall, List.flatMap_cons, List.flatMap_nil, List.append_nil]
    exact h t
  | cons u ts ih =>
    have hall : (∀ v ∈ t :: u :: ts, good v) = (good t ∧ ∀ v ∈ u :: ts, good v) :=
      propext List.forall_mem_cons
    rw [hall, List.flatMap_cons]
    exact (h t).append (ih u)

lemma readKey_blank (x : List Char) : readKey (' ' :: x) = readKey x := by
  have htrim : trim (' ' :: x) = trim x := trim_spaces_append (g := [' ']) (by decide) x
  rw [readKey, readKey, htrim]

lemma mapM_readKey_blanks (xs : List (List Char)) :
    (xs.map (' ' :: ·)).mapM readKey = xs.mapM readKey := by
  induction xs with
  | nil => rfl
  | cons x xs ih => rw [List.map_cons, List.mapM_cons, List.mapM_cons, readKey_blank, ih]

/-- What is read in such a text. -/
lemma Lowered.mapM_readKey {good : Prop} {ks : List Key} {s : List Char} (h : Lowered good ks s)
    {g : List Char} (hg : g = [] ∨ g = [' ']) :
    (good → (splitTopLevelCommas (g ++ s)).mapM readKey = some ks) ∧
      (¬ good → (splitTopLevelCommas (g ++ s)).mapM readKey = none) := by
  obtain ⟨x, xs, rfl, hpart, hgood, hbad⟩ := h
  have hread : (splitTopLevelCommas (g ++ commas (x :: xs))).mapM readKey =
      (x :: xs).mapM readKey := by
    have hfirst : readKey (g ++ x) = readKey x := by
      rcases hg with rfl | rfl
      · rfl
      · exact readKey_blank x
    have hord : Ordinary g := by
      rcases hg with rfl | rfl <;> decide
    rw [splitTopLevelCommas_prepend hord, splitTopLevelCommas_listed hpart, prependHead,
      List.mapM_cons, List.mapM_cons, hfirst, mapM_readKey_blanks]
  exact ⟨fun hcond => hread.trans (hgood hcond), fun hcond => hread.trans (hbad hcond)⟩

/-- **When such a text sorts as the terms do.** -/
theorem Lowered.sortsAs_iff {good : Prop} {test : Term → Option Bool} {ts : List Term}
    {s : List Char} (h : Lowered good (ts.flatMap fun t => keys (test t) t) s) {g : List Char}
    (hg : g = [] ∨ g = [' ']) :
    SortsAs ts (g ++ s) ↔ good ∧ SamePlaces [] (ts.map fun t => twin (test t) t) := by
  obtain ⟨hgood, hbad⟩ := h.mapM_readKey hg
  by_cases hcond : good
  · rw [and_iff_right hcond]
    exact OrderBy.sortsAs_iff (hgood hcond)
  · refine iff_of_false ?_ fun h => hcond h.1
    rintro ⟨ks, hks, -⟩
    rw [hbad hcond] at hks
    cases hks

/-! ### The first pass -/

/-- The word of a direction in small letters. -/
def smallWord (desc : Bool) : List Char := if desc then "desc".toList else "asc".toList

lemma upper_directionWord (desc : Bool) : upper (directionWord desc) = directionWord desc := by
  cases desc <;> decide

lemma upper_smallWord (desc : Bool) : upper (smallWord desc) = directionWord desc := by
  cases desc <;> decide

lemma word_smallWord (desc : Bool) : Word (smallWord desc) := by
  cases desc <;> decide

/-- Nothing is left of the direction, if there is one, when the word is taken away. -/
def Term.Stripped (t : Term) (desc : Bool) : Prop :=
  ∀ d ∈ t.direction, d.word.blank = ' ' ∧
    (d.word.text = directionWord desc ∨ d.word.text = smallWord desc)

/-- A place for `NULL` is spelled as it is looked for, and nothing is left of the direction. -/
def Term.Handled (t : Term) : Prop :=
  ∀ p ∈ t.place, p.Plain ∧ t.Stripped (!p.first)

/-- The white space that is left of a direction. -/
def Term.gap (t : Term) : List Char := t.direction.elim [] fun d => d.word.gap

lemma Term.isGap (t : Term) : Gap t.gap := by
  rw [gap]
  cases t.direction with
  | none => decide
  | some d => exact d.word.isGap

namespace Term

variable {t : Term} {desc : Bool}

lemma withoutWord_of_stripped (h : t.Stripped desc) :
    withoutWord (' ' :: directionWord desc) (' ' :: smallWord desc) t.directed =
      t.expr ++ t.gap := by
  rw [Stripped] at h
  rw [withoutWord, directed, gap]
  cases hd : t.direction with
  | none =>
    rw [Option.elim_none, Option.elim_none, List.append_nil,
      stripSuffix_expr t.isExpr (upper_directionWord desc),
      stripSuffix_expr t.isExpr (upper_smallWord desc)]
    rfl
  | some d =>
    obtain ⟨hblank, hword⟩ := h d hd
    have hdir := word_directionWord d.desc
    rw [Option.elim_some, Option.elim_some,
      stripSuffix_written d.word hdir (word_directionWord desc).solid,
      stripSuffix_written d.word hdir (word_smallWord desc).solid]
    rcases hword with hword | hword
    · rw [if_pos ⟨hword.symm, hblank⟩]
      rfl
    · have hsmall : smallWord desc = d.word.text ∧ d.word.blank = ' ' := ⟨hword.symm, hblank⟩
      by_cases hcapital : directionWord desc = d.word.text ∧ d.word.blank = ' '
      · rw [if_pos hcapital]
        rfl
      · rw [if_neg hcapital, if_pos hsmall]
        rfl

lemma withoutWord_of_not_stripped (h : ¬ t.Stripped desc) :
    withoutWord (' ' :: directionWord desc) (' ' :: smallWord desc) t.directed = t.directed := by
  rw [Stripped] at h
  push Not at h
  obtain ⟨d, hd, hne⟩ := h
  have hd : t.direction = some d := hd
  have hdir := word_directionWord d.desc
  rw [withoutWord, directed, hd, Option.elim_some,
    stripSuffix_written d.word hdir (word_directionWord desc).solid,
    stripSuffix_written d.word hdir (word_smallWord desc).solid,
    if_neg fun hcond => (hne hcond.2).1 hcond.1.symm,
    if_neg fun hcond => (hne hcond.2).2 hcond.1.symm]
  rfl

end Term

lemma lastText : " NULLS LAST".toList = ' ' :: "NULLS".toList ++ ' ' :: placeWord false := by
  decide

lemma firstText : " NULLS FIRST".toList = ' ' :: "NULLS".toList ++ ' ' :: placeWord true := by
  decide

/-- The expression that is tested. -/
def tested (first : Bool) (e : List Char) : List Char :=
  let stripped := withoutWord (' ' :: directionWord (!first)) (' ' :: smallWord (!first)) e
  if first then trim stripped else stripped

/-- A term whose place for `NULL` is found. -/
lemma normalizeTerm_plain {t : Term} {p : Place} (hp : t.place = some p) (hplain : p.Plain) :
    normalizeTerm t.written = (tested p.first t.directed ++ testText p.first) ++
      (", ".toList ++ (t.directed ++ p.nulls.gap)) := by
  obtain ⟨hnulls, hgap, hword⟩ := hplain
  have htext : t.text = (t.directed ++ p.nulls.gap) ++
      (' ' :: p.nulls.text ++ ' ' :: p.word.text) := by
    simp [Term.text, hp, EndWord.written, hnulls, hgap, hword]
  have htail : upper (' ' :: p.nulls.text ++ ' ' :: p.word.text) =
      ' ' :: "NULLS".toList ++ ' ' :: placeWord p.first := by
    rw [upper_append, upper_cons, upper_cons, p.nulls.spelled, p.word.spelled]
    rfl
  have hlen := congrArg List.length htail
  rw [length_upper] at hlen
  have htake : ∀ n, n = (t.directed ++ p.nulls.gap).length →
      t.text.take n = t.directed ++ p.nulls.gap := by
    rintro n rfl
    rw [htext, List.take_left]
  have hfront : t.text.length - (' ' :: "NULLS".toList ++ ' ' :: placeWord p.first).length =
      (t.directed ++ p.nulls.gap).length := by
    rw [htext, List.length_append, hlen, Nat.add_sub_cancel]
  have hstrip : stripSuffix (' ' :: "NULLS".toList ++ ' ' :: placeWord p.first) (upper t.text) =
      some (upper (t.directed ++ p.nulls.gap)) := by
    rw [htext, upper_append, htail]
    exact stripSuffix_append _ _
  have htrim : trim (t.directed ++ p.nulls.gap) = t.directed :=
    trim_gap p.nulls.isGap t.trimmed_directed
  rw [normalizeTerm]
  simp only [t.trim_written]
  cases hfirst : p.first with
  | false =>
    rw [hfirst] at hstrip hfront
    rw [lastText, hstrip]
    simp only [length_upper, htake _ rfl, htrim, htake _ hfront, List.append_assoc]
    rfl
  | true =>
    rw [hfirst] at hstrip hfront
    have hno : stripSuffix " NULLS LAST".toList (upper t.text) = none := by
      apply stripSuffix_eq_none
      rw [lastText, t.suffix_text_iff]
      rintro ⟨q, hq, hlast, -⟩
      obtain rfl := Option.some.inj (hp.symm.trans hq)
      rw [hfirst] at hlast
      cases hlast
    rw [hno, firstText, hstrip]
    simp only [length_upper, htake _ rfl, htrim, htake _ hfront, List.append_assoc]
    rfl

/-- A term whose place for `NULL` is not found, if it has one. -/
lemma normalizeTerm_other {t : Term} (h : ∀ p ∈ t.place, ¬ p.Plain) :
    normalizeTerm t.written = t.text := by
  have hno : ∀ first, stripSuffix (' ' :: "NULLS".toList ++ ' ' :: placeWord first)
      (upper t.text) = none := by
    intro first
    apply stripSuffix_eq_none
    rw [t.suffix_text_iff]
    rintro ⟨p, hp, -, hplain⟩
    exact h p hp hplain
  rw [normalizeTerm]
  simp only [t.trim_written, lastText, firstText, hno]

/-- A place for `NULL` is not read. -/
lemma readKey_place {t : Term} {p : Place} (hp : t.place = some p) : readKey t.text = none := by
  have hplace := word_placeWord p.first
  have htext : t.text = (t.directed ++ p.nulls.written) ++ p.word.written := by
    simp [Term.text, hp]
  have hlast : upper (lastWord t.text) = placeWord p.first := by
    rw [htext, lastWord_keyword p.word hplace, p.word.spelled]
  have hbefore : upper (lastWord (beforeLast t.text)) = "NULLS".toList := by
    rw [htext, beforeLast_keyword p.word hplace, trimEnd_keyword p.nulls word_nulls,
      lastWord_keyword p.nulls word_nulls, p.nulls.spelled]
  have htrim : trim t.text = t.text := trim_of_trimmed t.trimmed_text
  have hdesc : placeWord p.first ≠ "DESC".toList := (directionWord_ne_placeWord true _).symm
  have hasc : placeWord p.first ≠ "ASC".toList := (directionWord_ne_placeWord false _).symm
  have hnull : placeWord p.first ≠ "NULL".toList := by
    cases p.first <;> decide
  have hexpr : ¬ IsExpr t.text := fun h => h.place p.first ⟨hbefore, hlast⟩
  rw [readKey, htrim, readDirection, hlast, if_neg hdesc, if_neg hasc]
  simp only [readTest, hlast, if_neg hnull, if_neg hexpr]

lemma readKey_directed (t : Term) : readKey t.directed = some ⟨t.expr, none, t.desc⟩ := by
  have hnil : Gap [] := by decide
  have h := readKey_term t hnil hnil
  rw [List.append_nil, List.nil_append] at h
  exact h

/-- The text of a test on what is left. -/
lemma lowered_test (t : Term) (first : Bool) :
    Lowered (t.Stripped (!first)) [⟨t.expr, some first, false⟩]
      (tested first t.directed ++ testText first) := by
  have htrimgap : trim (t.expr ++ t.gap) = t.expr := trim_gap t.isGap t.isExpr.trimmed
  have htrim : trim t.directed = t.directed := trim_of_trimmed t.trimmed_directed
  have htest := (ordinary_testText first).part
  by_cases h : t.Stripped (!first)
  · obtain ⟨g, hg, htested⟩ : ∃ g, Gap g ∧ tested first t.directed = t.expr ++ g := by
      rw [tested, Term.withoutWord_of_stripped h]
      cases first
      · exact ⟨t.gap, t.isGap, rfl⟩
      · exact ⟨[], by decide, by rw [List.append_nil]; exact htrimgap⟩
    rw [htested]
    apply lowered_singleton
    · exact (t.isExpr.part.append (ordinary_of_gap hg).part).append htest
    · intro _
      rw [List.append_assoc]
      exact readKey_test t.isExpr (g := []) (by decide) hg first
    · exact fun hnot => absurd h hnot
  · have htested : tested first t.directed = t.directed := by
      rw [tested, Term.withoutWord_of_not_stripped h]
      cases first
      · rfl
      · exact htrim
    rw [htested]
    apply lowered_singleton
    · exact t.part_directed.append htest
    · exact fun hyes => absurd hyes h
    · intro _
      rw [Term.Stripped] at h
      push Not at h
      obtain ⟨d, hd, -⟩ := h
      have hd : t.direction = some d := hd
      rw [Term.directed, hd, Option.elim_some, List.append_assoc]
      exact readKey_test_direction t.isExpr (g := []) (by decide) d first

/-- What the first pass makes of a term. -/
lemma lowered_normalizeTerm (t : Term) :
    Lowered t.Handled (keys (t.place.map Place.first) t) (normalizeTerm t.written) := by
  cases hp : t.place with
  | none =>
    have hgood : t.Handled := by
      intro p hp'
      rw [hp] at hp'
      cases hp'
    have htext : t.text = t.directed := by
      simp [Term.text, hp]
    rw [normalizeTerm_other (by simp [hp]), htext]
    exact lowered_singleton t.part_directed (fun _ => readKey_directed t)
      fun hnot => absurd hgood hnot
  | some p =>
    by_cases hplain : p.Plain
    · have hcond : t.Handled = (t.Stripped (!p.first) ∧ True) := by
        rw [and_true]
        apply propext
        constructor
        · exact fun h => (h p hp).2
        · intro h q hq
          obtain rfl := Option.some.inj (hp.symm.trans hq)
          exact ⟨hplain, h⟩
      have hlast : Lowered True [⟨t.expr, none, t.desc⟩] (t.directed ++ p.nulls.gap) := by
        apply lowered_singleton
        · exact t.part_directed.append (ordinary_of_gap p.nulls.isGap).part
        · exact fun _ => readKey_term t (g := []) (by decide) p.nulls.isGap
        · exact fun hnot => absurd trivial hnot
      rw [hcond, normalizeTerm_plain hp hplain]
      exact (lowered_test t p.first).append hlast
    · have hbad : ¬ t.Handled := fun h => hplain (h p hp).1
      have hother : ∀ q ∈ t.place, ¬ q.Plain := by
        intro q hq
        obtain rfl := Option.some.inj (hp.symm.trans hq)
        exact hplain
      rw [normalizeTerm_other hother]
      refine ⟨t.text, [], rfl, ?_, fun h => absurd h hbad, fun _ => ?_⟩
      · intro y hy
        rw [List.mem_singleton.1 hy]
        exact t.part_text
      · rw [List.mapM_cons, readKey_place hp]
        rfl

lemma lowered_normalize (t : Term) (ts : List Term) :
    Lowered (∀ u ∈ t :: ts, u.Handled)
      ((t :: ts).flatMap fun u => keys (u.place.map Place.first) u)
      (normalizeNullsOrdering (clause (t :: ts))) := by
  rw [normalizeNullsOrdering, splitTopLevelCommas_clause, List.map_map]
  exact lowered_commas lowered_normalizeTerm t ts

/-- **When the list of the first pass sorts as the terms do**: if each place for `NULL` is spelled
as it is looked for, and each expression that is compared for the first time has one. A position
needs the place that it has in MariaDB anyway. -/
theorem normalize_sortsAs_iff (t : Term) (ts : List Term) :
    SortsAs (t :: ts) (normalizeNullsOrdering (clause (t :: ts))) ↔
      (∀ u ∈ t :: ts, u.Handled) ∧
        SamePlaces [] ((t :: ts).map fun u => twin (u.place.map Place.first) u) :=
  (lowered_normalize t ts).sortsAs_iff (g := []) (Or.inl rfl)

/-! ### The second pass -/

/-- The test that the second pass puts in front of a term. -/
def descTest (t : Term) : Option Bool :=
  match t.direction with
  | some d => if d.desc = true ∧ d.word.blank = ' ' then some true else none
  | none => none

/-- What the second pass makes of a term. -/
lemma lowered_descNullsTerm (t : Term) :
    Lowered (t.place = none) (keys (descTest t) t) (descNullsTerm t.written) := by
  have hdescText : " DESC".toList = ' ' :: directionWord true := by decide
  cases hp : t.place with
  | some p =>
    have hplace := word_placeWord p.first
    have htext : upper t.text = upper (t.directed ++ (p.nulls.written ++ p.word.gap)) ++
        p.word.blank :: placeWord p.first := by
      have hsplit : t.text = (t.directed ++ (p.nulls.written ++ p.word.gap)) ++
          p.word.blank :: p.word.text := by
        simp [Term.text, hp, EndWord.written]
      rw [hsplit, upper_append, upper_cons, p.word.spelled,
        toUpper_of_isSpace (isSpace_of_isWhitespace p.word.isBlank)]
    have hno : stripSuffix " DESC".toList (upper t.text) = none := by
      apply stripSuffix_eq_none
      have hiff := suffix_word_iff (u := []) (v := directionWord true)
        (z := upper (t.directed ++ (p.nulls.written ++ p.word.gap)))
        (isSpace_of_isWhitespace p.word.isBlank) (word_directionWord true).solid hplace.solid
      rw [List.nil_append] at hiff
      rw [hdescText, htext, hiff]
      exact fun h => directionWord_ne_placeWord _ _ h.1
    rw [descNullsTerm]
    simp only [t.trim_written, hno]
    refine ⟨t.text, [], rfl, ?_, fun h => absurd h (Option.some_ne_none p), fun _ => ?_⟩
    · intro y hy
      rw [List.mem_singleton.1 hy]
      exact t.part_text
    · rw [List.mapM_cons, readKey_place hp]
      rfl
  | none =>
    have htext : t.text = t.directed := by
      simp [Term.text, hp]
    have hlast : Lowered True [⟨t.expr, none, t.desc⟩] t.directed :=
      lowered_singleton t.part_directed (fun _ => readKey_directed t) fun h => absurd trivial h
    rw [descNullsTerm]
    simp only [t.trim_written, htext]
    cases hd : t.direction with
    | none =>
      have hexpr : t.directed = t.expr := by
        simp [Term.directed, hd]
      have hno : stripSuffix " DESC".toList (upper t.expr) = none := by
        apply stripSuffix_eq_none
        intro hsuffix
        obtain ⟨z, v, hz, hv⟩ := exists_of_suffix_upper hsuffix
        obtain ⟨w, rfl, hw⟩ := eq_of_upper_blank (hv.trans hdescText)
        have hstrip := stripSuffix_expr t.isExpr hw
        rw [hz] at hstrip
        rw [stripSuffix_append] at hstrip
        cases hstrip
      have htest : descTest t = none := by
        rw [descTest, hd]
      rw [htest]
      rw [hexpr] at hlast ⊢
      simp only [hno]
      exact hlast
    | some d =>
      have hdirected : t.directed = t.expr ++ d.word.written := by
        simp [Term.directed, hd]
      have hup : upper t.directed = upper (t.expr ++ d.word.gap) ++
          d.word.blank :: directionWord d.desc := by
        rw [hdirected, upper_append, upper_written, upper_append, upper_gap d.word.isGap,
          List.append_assoc]
      have hiff := suffix_word_iff (u := []) (v := directionWord true)
        (z := upper (t.expr ++ d.word.gap)) (isSpace_of_isWhitespace d.word.isBlank)
        (word_directionWord true).solid (word_directionWord d.desc).solid
      rw [List.nil_append, ← hup, ← hdescText] at hiff
      by_cases hdesc : d.desc = true ∧ d.word.blank = ' '
      · obtain ⟨hdown, hblank⟩ := hdesc
        have htest : descTest t = some true := by
          simp [descTest, hd, hdown, hblank]
        have hstrip : stripSuffix " DESC".toList (upper t.directed) =
            some (upper (t.expr ++ d.word.gap)) := by
          have hword : directionWord d.desc = " DESC".toList.tail := by
            rw [hdown]
            decide
          have hends : upper t.directed = upper (t.expr ++ d.word.gap) ++ " DESC".toList := by
            refine hup.trans (congrArg (upper (t.expr ++ d.word.gap) ++ ·) ?_)
            rw [hblank]
            exact congrArg (' ' :: ·) hword
          rw [hends]
          exact stripSuffix_append _ _
        have htake : t.directed.take (t.expr ++ d.word.gap).length = t.expr ++ d.word.gap := by
          have hsplit : t.directed = (t.expr ++ d.word.gap) ++ d.word.blank :: d.word.text := by
            simp [hdirected, EndWord.written]
          rw [hsplit, List.take_left]
        have htrim : trim (t.expr ++ d.word.gap) = t.expr :=
          trim_gap d.word.isGap t.isExpr.trimmed
        have hnil : Gap [] := by decide
        have htested : Lowered True [⟨t.expr, some true, false⟩]
            (t.expr ++ testText true) := by
          apply lowered_singleton
          · exact t.isExpr.part.append (ordinary_testText true).part
          · exact fun _ => readKey_test t.isExpr hnil hnil true
          · exact fun h => absurd trivial h
        have hboth := htested.append hlast
        rw [and_true, List.append_assoc] at hboth
        rw [htest]
        simp only [hstrip, length_upper, htake, htrim]
        exact hboth
      · have hno : stripSuffix " DESC".toList (upper t.directed) = none := by
          apply stripSuffix_eq_none
          rw [hiff]
          rintro ⟨hword, hblank, -⟩
          apply hdesc
          refine ⟨?_, hblank⟩
          cases hdown : d.desc with
          | true => rfl
          | false =>
            rw [hdown] at hword
            exact absurd hword (by decide)
        have htest : descTest t = none := by
          simp only [descTest, hd, if_neg hdesc]
        rw [htest]
        simp only [hno]
        exact hlast

/-- A keyword is found in the text. -/
lemma findKwFrom_lt {kw s : List Char} {depth : ℤ} {quote : Option Char} {before : Bool} {i : ℕ}
    (h : findKwFrom kw depth quote before s = some i) : i < s.length := by
  induction s generalizing depth quote before i with
  | nil => cases h
  | cons c s ih =>
    have hmap : ∀ {o : Option ℕ}, (∀ j, o = some j → j < s.length) → o.map (· + 1) = some i →
        i < (c :: s).length := by
      intro o ho hi
      obtain ⟨j, hj, rfl⟩ := Option.map_eq_some_iff.1 hi
      exact Nat.succ_lt_succ (ho j hj)
    cases quote with
    | some q => exact hmap (fun j hj => ih hj) h
    | none =>
      rw [findKwFrom] at h
      split_ifs at h
      · exact hmap (fun j hj => ih hj) h
      · exact hmap (fun j hj => ih hj) h
      · exact hmap (fun j hj => ih hj) h
      · obtain rfl := Option.some.inj h
        exact Nat.succ_pos _
      · exact hmap (fun j hj => ih hj) h

lemma findKwLastFuel_lt {s kw : List Char} {fuel base : ℕ} {last : Option ℕ} {i : ℕ}
    (hlast : ∀ j ∈ last, j < s.length) (h : findKwLastFuel s kw fuel base last = some i) :
    i < s.length := by
  induction fuel generalizing base last with
  | zero => exact hlast i h
  | succ fuel ih =>
    rw [findKwLastFuel] at h
    cases hfind : findTopLevelKw (s.drop base) kw with
    | none =>
      rw [hfind] at h
      exact hlast i h
    | some rel =>
      rw [hfind] at h
      refine ih ?_ h
      intro j hj
      obtain rfl := Option.some.inj hj
      have hrel := findKwFrom_lt hfind
      rw [List.length_drop] at hrel
      omega

/-- It looks at the parts without the white space around them. -/
lemma map_descNullsTerm (xs : List (List Char)) :
    xs.map descNullsTerm = (xs.map trim).map fun t =>
      match stripSuffix " DESC".toList (upper t) with
      | some expr => trim (t.take expr.length) ++ (" IS NOT NULL".toList ++ (", ".toList ++ t))
      | none => t := by
  rw [List.map_map]
  rfl

lemma mapM_eq_none {α β : Type} {f : α → Option β} {x : α} {xs : List α} (hx : x ∈ xs)
    (h : f x = none) : xs.mapM f = none := by
  induction xs with
  | nil => cases hx
  | cons y ys ih =>
    rw [List.mapM_cons]
    rcases List.mem_cons.1 hx with rfl | hx
    · rw [h]
      rfl
    · rw [ih hx]
      cases f y <;> rfl

/-- The natural order puts `NULL` where Oracle does not put it. -/
lemma not_sortsAs_clause (t : Term) (ts : List Term) : ¬ SortsAs (t :: ts) (clause (t :: ts)) := by
  have hkey : ∀ u : Term, readKey u.written = readKey u.text := by
    intro u
    have htrim : trim u.text = u.text := trim_of_trimmed u.trimmed_text
    rw [readKey, readKey, u.trim_written, htrim]
  by_cases hplace : ∀ u ∈ t :: ts, u.place = none
  · have hread : (splitTopLevelCommas (clause (t :: ts))).mapM readKey =
        some ((t :: ts).flatMap fun u => keys none u) := by
      rw [splitTopLevelCommas_clause]
      generalize t :: ts = us at hplace
      induction us with
      | nil => rfl
      | cons u us ih =>
        have htext : u.text = u.directed := by
          simp [Term.text, hplace u List.mem_cons_self]
        rw [List.map_cons, List.mapM_cons, hkey, htext, readKey_directed,
          ih fun v hv => hplace v (List.mem_cons_of_mem u hv)]
        rfl
    rw [@sortsAs_iff (fun _ => none) _ _ hread]
    rintro ⟨hfirst, -⟩
    have hsame : (!t.desc) = t.nullsFirst := hfirst List.not_mem_nil
    rw [Term.nullsFirst, hplace t List.mem_cons_self, Option.elim_none] at hsame
    cases hdesc : t.desc with
    | true =>
      rw [hdesc] at hsame
      cases hsame
    | false =>
      rw [hdesc] at hsame
      cases hsame
  · push Not at hplace
    obtain ⟨u, hu, hne⟩ := hplace
    obtain ⟨p, hp⟩ := Option.ne_none_iff_exists'.1 hne
    rintro ⟨ks, hks, -⟩
    rw [splitTopLevelCommas_clause, mapM_eq_none (List.mem_map_of_mem hu)
      ((hkey u).trans (readKey_place hp))] at hks
    cases hks

/-- **When the list of the second pass sorts as the terms do**: if no term has a place for `NULL`,
the clause is not skipped, and each expression that is compared for the first time is sorted with
`DESC` behind a blank and is no position. -/
theorem descNulls_sortsAs_iff {sql : List Char} {obAt : ℕ} {t : Term} {ts : List Term}
    (hat : findTopLevelKwLast sql "ORDER BY".toList = some obAt)
    (hclause : sql.drop (obAt + "ORDER BY".toList.length) = clause (t :: ts)) :
    SortsAs (t :: ts)
        ((rewriteMariadbOrderByDescNulls sql).drop (obAt + "ORDER BY".toList.length)) ↔
      (∀ u ∈ t :: ts, u.place = none) ∧ ¬ Skipped (trim (clause (t :: ts))) ∧
        SamePlaces [] ((t :: ts).map fun u => twin (descTest u) u) := by
  rw [rewriteMariadbOrderByDescNulls, hat]
  simp only [hclause]
  by_cases hskip : Skipped (trim (clause (t :: ts)))
  · rw [if_pos hskip, hclause]
    exact iff_of_false (not_sortsAs_clause t ts) fun h => h.2.1 hskip
  · rw [if_neg hskip]
    have hlen : obAt ≤ sql.length := (findKwLastFuel_lt (by simp) hat).le
    have hmap : (splitTopLevelCommas (trim (clause (t :: ts)))).map descNullsTerm =
        (t :: ts).map fun u => descNullsTerm u.written := by
      rw [map_descNullsTerm, map_trim_split_trim, ← map_descNullsTerm, splitTopLevelCommas_clause,
        List.map_map]
      rfl
    have hdrop : ∀ keys : List Char, (sql.take obAt ++ ("ORDER BY ".toList ++ keys)).drop
        (obAt + "ORDER BY".toList.length) = [' '] ++ keys := by
      intro keys
      have hword : "ORDER BY ".toList = "ORDER BY".toList ++ [' '] := by decide
      rw [hword, List.append_assoc, ← List.append_assoc, List.drop_left']
      rw [List.length_append, List.length_take, min_eq_left hlen]
    rw [hmap, hdrop, (lowered_commas lowered_descNullsTerm t ts).sortsAs_iff (Or.inr rfl),
      and_iff_right hskip]

/-- **When the lists of the passes sort as the terms do.** -/
theorem nulls_placed_iff {sql : List Char} {obAt : ℕ} {t : Term} {ts : List Term}
    (hat : findTopLevelKwLast sql "ORDER BY".toList = some obAt)
    (hclause : sql.drop (obAt + "ORDER BY".toList.length) = clause (t :: ts)) :
    (SortsAs (t :: ts) (normalizeNullsOrdering (clause (t :: ts))) ↔
      (∀ u ∈ t :: ts, u.Handled) ∧
        SamePlaces [] ((t :: ts).map fun u => twin (u.place.map Place.first) u)) ∧
    (SortsAs (t :: ts)
        ((rewriteMariadbOrderByDescNulls sql).drop (obAt + "ORDER BY".toList.length)) ↔
      (∀ u ∈ t :: ts, u.place = none) ∧ ¬ Skipped (trim (clause (t :: ts))) ∧
        SamePlaces [] ((t :: ts).map fun u => twin (descTest u) u)) :=
  ⟨normalize_sortsAs_iff t ts, descNulls_sortsAs_iff hat hclause⟩

/-! ### Two terms -/

lemma gap_nil : Gap [] := by decide

lemma gap_blank : Gap [' '] := by decide

lemma isExpr_c : IsExpr ['c'] := by decide

/-- A column with nothing behind it. -/
def plainTerm : Term where
  before := [' ']
  expr := ['c']
  direction := none
  place := none
  after := []
  isGapBefore := gap_blank
  isExpr := isExpr_c
  isGapAfter := gap_nil

/-- A column with `ASC NULLS LAST`. -/
def ascNullsLast : Term where
  before := [' ']
  expr := ['c']
  direction := some ⟨false, blankWord _ (by decide)⟩
  place := some ⟨false, blankWord _ (by decide), blankWord _ (by decide)⟩
  after := []
  isGapBefore := gap_blank
  isExpr := isExpr_c
  isGapAfter := gap_nil

/-- A column with `DESC`. -/
def descTerm : Term where
  before := [' ']
  expr := ['c']
  direction := some ⟨true, blankWord _ (by decide)⟩
  place := none
  after := []
  isGapBefore := gap_blank
  isExpr := isExpr_c
  isGapAfter := gap_nil

/-- A query that sorts by a column downwards. -/
def descQuery : List Char := "SELECT c FROM t ORDER BY c DESC".toList

lemma descQuery_orderBy : findTopLevelKwLast descQuery "ORDER BY".toList = some 16 := by
  decide +kernel

lemma descQuery_clause : descQuery.drop (16 + "ORDER BY".toList.length) = clause [descTerm] := by
  decide +kernel

theorem descQuery_placed :
    SortsAs [descTerm]
      ((rewriteMariadbOrderByDescNulls descQuery).drop (16 + "ORDER BY".toList.length)) := by
  refine (nulls_placed_iff descQuery_orderBy descQuery_clause).2.2 ⟨?_, ?_, ?_⟩
  · intro u hu
    rw [List.mem_singleton.1 hu]
    rfl
  · decide +kernel
  · exact ⟨fun _ => by decide, trivial⟩

/-- **A plain term is left alone** by both passes, although MariaDB sorts `NULL` in front and Oracle
at the end; and **nothing is read** in what the first one makes of `ASC NULLS LAST`. -/
theorem plain_misplaced :
    ¬ (∀ (t : Term) (ts : List Term),
      SortsAs (t :: ts) (normalizeNullsOrdering (clause (t :: ts)))) ∧
    ¬ (∀ (sql : List Char) (obAt : ℕ) (t : Term) (ts : List Term),
      findTopLevelKwLast sql "ORDER BY".toList = some obAt →
      sql.drop (obAt + "ORDER BY".toList.length) = clause (t :: ts) →
      SortsAs (t :: ts)
        ((rewriteMariadbOrderByDescNulls sql).drop (obAt + "ORDER BY".toList.length))) ∧
    normalizeNullsOrdering (clause [ascNullsLast]) = "c ASC IS NULL, c ASC".toList := by
  have hplain : ¬ SamePlaces [] [twin none plainTerm] := fun h => by
    have hsame := h.1 List.not_mem_nil
    revert hsame
    decide
  refine ⟨fun h => ?_, fun h => ?_, by decide +kernel⟩
  · exact hplain ((normalize_sortsAs_iff plainTerm []).1 (h plainTerm [])).2
  · have hat : findTopLevelKwLast "SELECT c FROM t ORDER BY c".toList "ORDER BY".toList =
        some 16 := by decide +kernel
    have hclause : "SELECT c FROM t ORDER BY c".toList.drop (16 + "ORDER BY".toList.length) =
        clause [plainTerm] := by decide +kernel
    exact hplain ((descNulls_sortsAs_iff hat hclause).1 (h _ 16 plainTerm [] hat hclause)).2.2

end DbSaci.Translate.OrderBy
