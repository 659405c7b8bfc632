import DbSaci.Library.SortKeys
import DbSaci.Translate.CommaParts

set_option relaxedAutoImplicit false
set_option autoImplicit false

/-!
# The terms of `ORDER BY`

A term of Oracle is an expression or a position, with a direction and a place for `NULL`. MariaDB
has no place for `NULL`: it is less than all values. It reads the parts of a list as expressions
with a direction, or as tests for `NULL`.

## Main definitions

* `Term` — a term as it is written for Oracle.
* `Term.le` — the comparison that Oracle makes of it.
* `readKey` — what MariaDB reads in a part of a list.
* `Key.le` — the comparison that it makes of it.
* `SortsAs` — a list that MariaDB accepts and that sorts as the terms do.

## Main results

* `readKey_term` — an expression with a direction is read as it stands.
* `readKey_test`, `readKey_test_direction` — a test on an expression is read, and none on an
  expression with a direction.
* `sortsAs_iff` — when a list sorts as the terms do.
-/

namespace DbSaci.Translate.OrderBy

open Text Sorting

/-! ### Expressions -/

/-- The direction that a text ends with, and what stands in front of it. -/
def readDirection (t : List Char) : Bool × List Char :=
  if upper (lastWord t) = "DESC".toList then (true, beforeLast t)
  else if upper (lastWord t) = "ASC".toList then (false, beforeLast t)
  else (false, t)

/-- The test for `NULL` that a text ends with, true for `IS NOT NULL`. -/
def readTest (t : List Char) : Option Bool × List Char :=
  if upper (lastWord t) = "NULL".toList then
    if upper (lastWord (beforeLast t)) = "IS".toList then (some false, beforeLast (beforeLast t))
    else if upper (lastWord (beforeLast t)) = "NOT".toList ∧
        upper (lastWord (beforeLast (beforeLast t))) = "IS".toList then
      (some true, beforeLast (beforeLast (beforeLast t)))
    else (none, t)
  else (none, t)

/-- The place of `NULL` at the end of a list. -/
def placeWord (first : Bool) : List Char := if first then "FIRST".toList else "LAST".toList

/-- The word of a direction. -/
def directionWord (desc : Bool) : List Char := if desc then "DESC".toList else "ASC".toList

/-- An expression: the part of a list that ends neither with a direction nor with a place for `NULL`
nor with a test for it. -/
structure IsExpr (e : List Char) : Prop where
  part : Part e
  trimmed : Trimmed e
  direction : ∀ desc, upper (lastWord e) ≠ directionWord desc
  place : ∀ first, ¬ (upper (lastWord (beforeLast e)) = "NULLS".toList ∧
    upper (lastWord e) = placeWord first)
  test : readTest e = (none, e)

instance (s : List Char) : Decidable (Trimmed s) := by
  unfold Trimmed
  infer_instance

instance (e : List Char) : Decidable (IsExpr e) :=
  decidable_of_iff (Part e ∧ Trimmed e ∧ (∀ desc, upper (lastWord e) ≠ directionWord desc) ∧
      (∀ first, ¬ (upper (lastWord (beforeLast e)) = "NULLS".toList ∧
        upper (lastWord e) = placeWord first)) ∧ readTest e = (none, e))
    ⟨fun h => ⟨h.1, h.2.1, h.2.2.1, h.2.2.2.1, h.2.2.2.2⟩,
      fun h => ⟨h.part, h.trimmed, h.direction, h.place, h.test⟩⟩

/-- The number of a column. -/
def IsPosition (e : List Char) : Prop := e ≠ [] ∧ ∀ c ∈ e, c.isDigit = true

instance (e : List Char) : Decidable (IsPosition e) := by
  unfold IsPosition
  infer_instance

/-! ### Oracle -/

/-- A direction as it is written. -/
structure Direction where
  desc : Bool
  word : EndWord (directionWord desc)

/-- A place for `NULL` as it is written. -/
structure Place where
  first : Bool
  nulls : EndWord "NULLS".toList
  word : EndWord (placeWord first)

/-- A term as it is written. -/
structure Term where
  before : List Char
  expr : List Char
  direction : Option Direction
  place : Option Place
  after : List Char
  isGapBefore : Gap before
  isExpr : IsExpr expr
  isGapAfter : Gap after

namespace Term

variable (t : Term)

/-- The expression with its direction. -/
def directed : List Char := t.expr ++ t.direction.elim [] fun d => d.word.written

/-- The term without the white space around it. -/
def text : List Char :=
  t.directed ++ t.place.elim [] fun p => p.nulls.written ++ p.word.written

/-- The term with it. -/
def written : List Char := t.before ++ (t.text ++ t.after)

/-- Whether it sorts downwards. -/
def desc : Bool := t.direction.elim false Direction.desc

/-- Whether Oracle puts `NULL` in front: in the place that is written, otherwise as the greatest
value. -/
def nullsFirst : Bool := t.place.elim t.desc Place.first

/-- The comparison that Oracle makes. -/
def le {V : Type} (le : V → V → Bool) (x y : List Char → Option V) : Bool :=
  placed le t.desc t.nullsFirst (x t.expr) (y t.expr)

end Term

/-- The list of the terms as it is written. -/
def clause (ts : List Term) : List Char := [','].intercalate (ts.map Term.written)

/-- The order of Oracle. -/
def oracleLe {V : Type} (le : V → V → Bool) (ts : List Term) :
    (List Char → Option V) → (List Char → Option V) → Bool :=
  lexLe (ts.map (Term.le · le))

/-! ### MariaDB -/

/-- A sort key of MariaDB: an expression, or a test on one. -/
structure Key where
  expr : List Char
  test : Option Bool
  desc : Bool
  deriving DecidableEq

/-- The comparison that MariaDB makes. A test on a number is constant. -/
def Key.le {V : Type} (k : Key) (le : V → V → Bool) (x y : List Char → Option V) : Bool :=
  match k.test with
  | none => placed le k.desc (!k.desc) (x k.expr) (y k.expr)
  | some notNull =>
    if IsPosition k.expr then true
    else testLe (notNull != k.desc) (x k.expr) (y k.expr)

/-- What MariaDB reads in a part of a list. -/
def readKey (part : List Char) : Option Key :=
  let (desc, t) := readDirection (trim part)
  let (test, e) := readTest t
  if IsExpr e then some ⟨e, test, desc⟩ else none

/-- The order of MariaDB. -/
def mariadbLe {V : Type} (le : V → V → Bool) (ks : List Key) :
    (List Char → Option V) → (List Char → Option V) → Bool :=
  lexLe (ks.map (Key.le · le))

/-- MariaDB accepts the list, and sorts every list of records as Oracle sorts it by the terms. A
record has a value, or `NULL`, for each expression. -/
def SortsAs (ts : List Term) (text : List Char) : Prop :=
  ∃ ks, (splitTopLevelCommas text).mapM readKey = some ks ∧
    ∀ (V : Type) (le : V → V → Bool), Order le →
      ∀ records arranged, Arrangement (mariadbLe le ks) records arranged →
        arranged.Pairwise fun x y => oracleLe le ts x y = true

/-! ### Keywords -/

lemma word_directionWord (desc : Bool) : Word (directionWord desc) := by
  cases desc <;> decide

lemma word_placeWord (first : Bool) : Word (placeWord first) := by
  cases first <;> decide

lemma word_nulls : Word "NULLS".toList := by decide

lemma ordinary_directionWord (desc : Bool) : Ordinary (directionWord desc) := by
  cases desc <;> decide

lemma ordinary_placeWord (first : Bool) : Ordinary (placeWord first) := by
  cases first <;> decide

lemma ordinary_written {word : List Char} (h : Ordinary word) (k : EndWord word) :
    Ordinary k.written := by
  have hblank : Gap [k.blank] := fun c hc => List.mem_singleton.1 hc ▸ k.isBlank
  have htext : Ordinary k.text := ordinary_of_upper (k.spelled.symm ▸ h)
  exact (ordinary_of_gap k.isGap).append ((ordinary_of_gap hblank).append htext)

lemma part_written {word x : List Char} (h : Ordinary word) (k : EndWord word) (hx : Part x) :
    Part (x ++ k.written) := hx.append (ordinary_written h k).part

lemma trimmed_written {word x : List Char} (h : Word word) (k : EndWord word) (hx : Trimmed x) :
    Trimmed (x ++ k.written) := by
  obtain ⟨hne, hhead, -⟩ := hx
  obtain ⟨v, c, hv, hc⟩ := (k.isWord h).exists_concat
  refine ⟨List.append_ne_nil_of_left_ne_nil hne _, ?_, ?_⟩
  · rwa [List.head_append_of_ne_nil hne]
  · have htext : x ++ k.written = (x ++ (k.gap ++ k.blank :: v)) ++ [c] := by
      simp [EndWord.written, hv]
    simp only [htext, List.getLast_append_singleton]
    exact hc

namespace Term

variable (t : Term)

lemma part_directed : Part t.directed := by
  rw [directed]
  cases t.direction with
  | none =>
    rw [Option.elim_none, List.append_nil]
    exact t.isExpr.part
  | some d => exact part_written (ordinary_directionWord d.desc) d.word t.isExpr.part

lemma trimmed_directed : Trimmed t.directed := by
  rw [directed]
  cases t.direction with
  | none =>
    rw [Option.elim_none, List.append_nil]
    exact t.isExpr.trimmed
  | some d => exact trimmed_written (word_directionWord d.desc) d.word t.isExpr.trimmed

lemma part_text : Part t.text := by
  rw [text]
  cases t.place with
  | none =>
    rw [Option.elim_none, List.append_nil]
    exact t.part_directed
  | some p =>
    rw [Option.elim_some, ← List.append_assoc]
    exact part_written (ordinary_placeWord p.first) p.word
      (part_written (by decide) p.nulls t.part_directed)

lemma trimmed_text : Trimmed t.text := by
  rw [text]
  cases t.place with
  | none =>
    rw [Option.elim_none, List.append_nil]
    exact t.trimmed_directed
  | some p =>
    rw [Option.elim_some, ← List.append_assoc]
    exact trimmed_written (word_placeWord p.first) p.word
      (trimmed_written word_nulls p.nulls t.trimmed_directed)

lemma trim_written : trim t.written = t.text :=
  trim_gaps t.isGapBefore t.isGapAfter t.trimmed_text

lemma part_written : Part t.written :=
  (ordinary_of_gap t.isGapBefore).part.append
    (t.part_text.append (ordinary_of_gap t.isGapAfter).part)

end Term

/-- The parts of the list that is written. -/
lemma splitTopLevelCommas_clause (t : Term) (ts : List Term) :
    splitTopLevelCommas (clause (t :: ts)) = (t :: ts).map Term.written := by
  apply splitTopLevelCommas_intercalate (List.cons_ne_nil _ _)
  intro x hx
  have hx : x ∈ (t :: ts).map Term.written := hx
  obtain ⟨u, -, rfl⟩ := List.mem_map.1 hx
  exact u.part_written

/-! ### What is read -/

lemma readDirection_of_isExpr {e : List Char} (h : IsExpr e) : readDirection e = (false, e) := by
  have hdesc : upper (lastWord e) ≠ "DESC".toList := h.direction true
  have hasc : upper (lastWord e) ≠ "ASC".toList := h.direction false
  rw [readDirection, if_neg hdesc, if_neg hasc]

lemma readDirection_directed (t : Term) : readDirection t.directed = (t.desc, t.expr) := by
  rw [Term.directed, Term.desc]
  cases t.direction with
  | none =>
    rw [Option.elim_none, Option.elim_none, List.append_nil]
    exact readDirection_of_isExpr t.isExpr
  | some d =>
    obtain ⟨desc, word⟩ := d
    rw [Option.elim_some, Option.elim_some, readDirection,
      lastWord_keyword word (word_directionWord desc), word.spelled,
      beforeLast_keyword word (word_directionWord desc), trimEnd_of_trimmed t.isExpr.trimmed]
    cases desc <;> rfl

/-- **An expression with a direction is read as it stands.** -/
theorem readKey_term (t : Term) {g g' : List Char} (hg : Gap g) (hg' : Gap g') :
    readKey (g ++ (t.directed ++ g')) = some ⟨t.expr, none, t.desc⟩ := by
  rw [readKey, trim_gaps hg hg' t.trimmed_directed, readDirection_directed]
  simp only [t.isExpr.test, if_pos t.isExpr]

/-- The text of a test. -/
def testText (notNull : Bool) : List Char :=
  if notNull then " IS NOT NULL".toList else " IS NULL".toList

/-- A word with a blank in front of it. -/
def blankWord (w : List Char) (h : upper w = w) : EndWord w where
  gap := []
  blank := ' '
  text := w
  isGap := by decide
  isBlank := rfl
  spelled := h

/-- The last word of a test. -/
def nullWord : EndWord "NULL".toList := blankWord _ (by decide)

/-- The first word of a test. -/
def isWord : EndWord "IS".toList := blankWord _ (by decide)

/-- The word in between. -/
def notWord : EndWord "NOT".toList := blankWord _ (by decide)

lemma testText_false : testText false = isWord.written ++ nullWord.written := by decide

lemma testText_true : testText true = isWord.written ++ (notWord.written ++ nullWord.written) := by
  decide

lemma ordinary_testText (notNull : Bool) : Ordinary (testText notNull) := by
  cases notNull <;> decide

lemma trimmed_testText {x : List Char} (hx : Trimmed x) (g : List Char) (notNull : Bool) :
    Trimmed (x ++ (g ++ testText notNull)) := by
  obtain ⟨hne, hhead, -⟩ := hx
  obtain ⟨v, hv⟩ : ∃ v, testText notNull = v ++ ['L'] := by
    cases notNull
    · exact ⟨" IS NUL".toList, by decide⟩
    · exact ⟨" IS NOT NUL".toList, by decide⟩
  refine ⟨List.append_ne_nil_of_left_ne_nil hne _, ?_, ?_⟩
  · rwa [List.head_append_of_ne_nil hne]
  · have htext : x ++ (g ++ testText notNull) = (x ++ (g ++ v)) ++ ['L'] := by simp [hv]
    simp only [htext, List.getLast_append_singleton]
    rfl

/-- A test is no direction. -/
lemma readDirection_test (x : List Char) (notNull : Bool) :
    readDirection (x ++ testText notNull) = (false, x ++ testText notNull) := by
  have hlast : lastWord (x ++ testText notNull) = "NULL".toList := by
    cases notNull
    · rw [testText_false, ← List.append_assoc]
      exact lastWord_keyword nullWord (by decide) _
    · rw [testText_true, ← List.append_assoc, ← List.append_assoc]
      exact lastWord_keyword nullWord (by decide) _
  rw [readDirection, hlast, if_neg (by decide), if_neg (by decide)]

/-- A test is read with what stands in front of it. -/
lemma readTest_test (x : List Char) (notNull : Bool) :
    readTest (x ++ testText notNull) = (some notNull, trimEnd x) := by
  have hnull : ∀ y, lastWord (y ++ nullWord.written) = "NULL".toList ∧
      beforeLast (y ++ nullWord.written) = trimEnd y := fun y =>
    ⟨lastWord_keyword nullWord (by decide) y, beforeLast_keyword nullWord (by decide) y⟩
  have his : lastWord (x ++ isWord.written) = "IS".toList ∧
      beforeLast (x ++ isWord.written) = trimEnd x :=
    ⟨lastWord_keyword isWord (by decide) x, beforeLast_keyword isWord (by decide) x⟩
  have hend := trimEnd_keyword isWord (by decide) x
  cases notNull with
  | false =>
    obtain ⟨hlast, hbefore⟩ := hnull (x ++ isWord.written)
    rw [testText_false, ← List.append_assoc, readTest, hlast, if_pos (by decide), hbefore, hend,
      his.1, if_pos (by decide), his.2]
  | true =>
    obtain ⟨hlast, hbefore⟩ := hnull ((x ++ isWord.written) ++ notWord.written)
    have hnot : lastWord ((x ++ isWord.written) ++ notWord.written) = "NOT".toList ∧
        beforeLast ((x ++ isWord.written) ++ notWord.written) = trimEnd (x ++ isWord.written) :=
      ⟨lastWord_keyword notWord (by decide) _, beforeLast_keyword notWord (by decide) _⟩
    have hend' := trimEnd_keyword notWord (by decide) (x ++ isWord.written)
    rw [testText_true, ← List.append_assoc, ← List.append_assoc, readTest, hlast,
      if_pos (by decide), hbefore, hend', hnot.1, if_neg (by decide), hnot.2, hend, his.1,
      if_pos (by decide), his.2]

/-- **A test on an expression is read.** -/
theorem readKey_test {e g g' : List Char} (he : IsExpr e) (hg : Gap g) (hg' : Gap g')
    (notNull : Bool) :
    readKey (g ++ (e ++ (g' ++ testText notNull))) = some ⟨e, some notNull, false⟩ := by
  have hnil : Gap [] := by decide
  have htrim := trim_gaps hg hnil (trimmed_testText he.trimmed g' notNull)
  rw [List.append_nil] at htrim
  rw [readKey, htrim, ← List.append_assoc, readDirection_test]
  simp only [readTest_test, trimEnd_gap hg', trimEnd_of_trimmed he.trimmed, if_pos he]

/-- **None is read on an expression with a direction.** -/
theorem readKey_test_direction {e g : List Char} (he : IsExpr e) (hg : Gap g) (d : Direction)
    (notNull : Bool) : readKey (g ++ (e ++ (d.word.written ++ testText notNull))) = none := by
  have hword := word_directionWord d.desc
  have hnil : Gap [] := by decide
  have htrim := trim_gaps hg hnil (trimmed_testText he.trimmed d.word.written notNull)
  rw [List.append_nil] at htrim
  have hbad : ¬ IsExpr (e ++ d.word.written) := by
    intro h
    apply h.direction d.desc
    rw [lastWord_keyword d.word hword, d.word.spelled]
  rw [readKey, htrim, ← List.append_assoc, readDirection_test]
  simp only [readTest_test, trimEnd_keyword d.word hword, if_neg hbad]

/-! ### Two orders -/

/-- The keys for a term, with a test in front of it or without one. -/
def keys (test : Option Bool) (t : Term) : List Key :=
  (test.map fun notNull => ⟨t.expr, some notNull, false⟩).toList ++ [⟨t.expr, none, t.desc⟩]

/-- Where they put `NULL`: a test on a number is constant. -/
def placeWith (test : Option Bool) (t : Term) : Bool :=
  match test with
  | none => !t.desc
  | some notNull => if IsPosition t.expr then !t.desc else notNull

/-- The places of `NULL` in the two orders. -/
def twin (test : Option Bool) (t : Term) : Twin (List Char) where
  key := t.expr
  desc := t.desc
  first := placeWith test t
  other := t.nullsFirst

section Orders

variable {V : Type} (le : V → V → Bool) (test : Term → Option Bool)

lemma lexLe_keys (t : Term) (rest : List ((List Char → Option V) → (List Char → Option V) → Bool)) :
    lexLe ((keys (test t) t).map (Key.le · le) ++ rest) =
      lexLe (Twin.firstLe le (twin (test t) t) :: rest) := by
  cases h : test t with
  | none => rfl
  | some notNull =>
    by_cases hpos : IsPosition t.expr
    · have hconst : Key.le ⟨t.expr, some notNull, false⟩ le = fun _ _ => true := by
        funext x y
        exact if_pos hpos
      have hfirst : Twin.firstLe le (twin (some notNull) t) = Key.le ⟨t.expr, none, t.desc⟩ le := by
        funext x y
        rw [Twin.firstLe, twin, placeWith, if_pos hpos]
        rfl
      show lexLe (Key.le ⟨t.expr, some notNull, false⟩ le :: _) = _
      rw [hconst, lexLe_true, hfirst]
      rfl
    · have htest : Key.le ⟨t.expr, some notNull, false⟩ le =
          fun x y => testLe notNull (x t.expr) (y t.expr) := by
        funext x y
        exact (if_neg hpos).trans (by rw [Bool.bne_false])
      have hfirst : Twin.firstLe le (twin (some notNull) t) =
          fun x y => placed le t.desc notNull (x t.expr) (y t.expr) := by
        funext x y
        rw [Twin.firstLe, twin, placeWith, if_neg hpos]
      show lexLe (Key.le ⟨t.expr, some notNull, false⟩ le :: _) = _
      rw [htest, hfirst]
      exact lexLe_test t.desc notNull (!t.desc) (fun x => x t.expr) rest

lemma lexLe_cons_congr {ρ : Type} (c : ρ → ρ → Bool) {l r : List (ρ → ρ → Bool)}
    (h : lexLe l = lexLe r) : lexLe (c :: l) = lexLe (c :: r) := by
  funext x y
  rw [lexLe, lexLe, h]

/-- The order of MariaDB by the keys for the terms. -/
lemma mariadbLe_flatMap (ts : List Term) :
    mariadbLe le (ts.flatMap fun t => keys (test t) t) =
      orderLe le (ts.map fun t => twin (test t) t) := by
  rw [mariadbLe, orderLe]
  induction ts with
  | nil => rfl
  | cons t ts ih =>
    rw [List.flatMap_cons, List.map_append, lexLe_keys, List.map_cons, List.map_cons]
    exact lexLe_cons_congr _ ih

lemma oracleLe_eq (ts : List Term) :
    oracleLe le ts = otherOrderLe le (ts.map fun t => twin (test t) t) := by
  rw [oracleLe, otherOrderLe, List.map_map]
  rfl

end Orders

/-- **When a list sorts as the terms do**: if MariaDB puts `NULL` where Oracle puts it, for each
expression that is compared for the first time. -/
theorem sortsAs_iff {test : Term → Option Bool} {ts : List Term} {text : List Char}
    (hread : (splitTopLevelCommas text).mapM readKey =
      some (ts.flatMap fun t => keys (test t) t)) :
    SortsAs ts text ↔ SamePlaces [] (ts.map fun t => twin (test t) t) := by
  have horder : ∀ (V : Type) (le : V → V → Bool), Order le →
      Order (mariadbLe le (ts.flatMap fun t => keys (test t) t)) := by
    intro V le h
    rw [mariadbLe_flatMap]
    exact order_orderLe h _
  constructor
  · rintro ⟨ks, hks, hall⟩
    obtain rfl := Option.some.inj (hread.symm.trans hks)
    let le : Unit → Unit → Bool := fun _ _ => true
    have hle : Order le := ⟨fun _ _ => Or.inl rfl, fun _ _ _ _ _ => rfl⟩
    rw [← @refines_iff _ _ le, ← mariadbLe_flatMap, ← oracleLe_eq]
    intro x y hxy
    have hpairs := (forall_arrangement_iff (horder Unit le hle)).1 (hall Unit le hle [x, y])
    exact hpairs x y (List.Subperm.refl _) hxy
  · intro hsame
    refine ⟨_, hread, fun V le hle records => ?_⟩
    rw [forall_arrangement_iff (horder V le hle)]
    rintro x y - hxy
    rw [mariadbLe_flatMap] at hxy
    rw [oracleLe_eq le test]
    rwa [← orderLe_eq_of_samePlaces hsame fun k hk => absurd hk List.not_mem_nil]

end DbSaci.Translate.OrderBy
