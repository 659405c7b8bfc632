import DbSaci.Sql.Comparison
import DbSaci.Sql.RowBound
import DbSaci.Translate.Where

set_option relaxedAutoImplicit false
set_option autoImplicit false

/-!
# Row limits

`translateQuery` lifts the `ROWNUM` comparisons of a query to a `LIMIT`, on the statement or, where
there is an `ORDER BY`, on an inner query. Oracle bounds the rows that go into the block; what the
translated query returns depends on the block, on how each comparison is read, and on how the
remaining predicate is printed.

## Main definitions

* `Query`, `translateQuery`, `PgQuery.rows` — the query, its translation and what that returns.
* `Query.oracleRows` — what the query returns in Oracle.
* `Query.oracleBound`, `Query.limitBound` — the bound its comparisons amount to, in Oracle and as
  they are read.
* `Query.Lifts` — when the row limit can be lifted.

## Main results

* `rows_translateQuery` — the translation bounds the block by the bound as it is read.
* `oracleRows_eq` — Oracle bounds the rows by the bound of the comparisons.
* `faithful_iff_lifts` — the query returns the same rows exactly when the limit can be lifted.
-/

namespace DbSaci.Translate

open Sql

/-! ### The translation -/

/-- A query of a single block over one table. -/
structure Query where
  block : Block
  selection : Option Expr
  deriving DecidableEq, Repr

/-- A translated query: one block, or one over an inner `SELECT *` that has the limit. -/
inductive PgQuery
  | block (b : Block) (selection limit : Option Expr)
  | wrapped (inner : Block) (selection : Option Expr) (limit : Expr) (outer : Block)
  deriving DecidableEq, Repr

/-- Lift the `ROWNUM` comparisons to a row limit. With an `ORDER BY` the inner query keeps
everything of the block but its `SELECT` list and its `ORDER BY`, which go to the outer query. -/
def translateQuery (q : Query) : PgQuery :=
  let (remaining, rowLimit) :=
    match q.selection with
    | none => (none, none)
    | some selection => stripRownumPredicate selection
  match rowLimit with
  | none => .block q.block remaining none
  | some limit =>
    if q.block.ordered = false then .block q.block remaining (some limit)
    else .wrapped { q.block with ordered := false } remaining limit
      { q.block with distinct := false }

/-- The value of a limit expression. -/
def limitValue : Expr → Option ℚ
  | .number n => some n.value
  | .unaryOp .minus e => (limitValue e).map fun v => -v
  | .binaryOp a .minus b => do return (← limitValue a) - (← limitValue b)
  | .least a b => do return min (← limitValue a) (← limitValue b)
  | _ => none

/-- A value converted to `bigint`: rounded to the nearest integer, halves away from zero. -/
def roundAway (v : ℚ) : ℤ := if 0 ≤ v then ⌊v + 1 / 2⌋ else -⌊-v + 1 / 2⌋

/-- How many rows a limit admits. A limit that is negative or no `bigint` is an error. -/
def limitRows (v : ℚ) : Option ℕ :=
  if 0 ≤ roundAway v ∧ roundAway v < 2 ^ 63 then some (roundAway v).toNat else none

section Rows

variable {α β κ : Type} [DecidableEq α] [DecidableEq β] [DecidableEq κ]

/-- The rows a translated `WHERE` clause lets through, as its text is read. A `ROWNUM` that is
left in it becomes a window function, which the server rejects there. -/
def filterRows (truth : α → Expr → Truth) (selection : Option Expr) (rows : List α) :
    Option (List α) :=
  match selection with
  | none => some rows
  | some e =>
    if e.mentionsRownum then none
    else (Formula.read e.formula.print).map fun f => rows.filter fun r => (f.truth (truth r)).holds

/-- What a translated query returns. -/
def PgQuery.rows (truth : α → Expr → Truth) (m : Meaning α β κ) (rows : List α) :
    PgQuery → Option (List β)
  | .block b selection none => (filterRows truth selection rows).map (b.select m)
  | .block b selection (some limit) => do
    let kept ← filterRows truth selection rows
    let n ← (limitValue limit).bind limitRows
    return (b.select m kept).take n
  | .wrapped inner selection limit outer => do
    let kept ← filterRows truth selection rows
    let n ← (limitValue limit).bind limitRows
    if inner.shape = .grouped ∨ outer.qualified then none
    else return outer.select m ((if inner.distinct then eraseRepeats kept else kept).take n)

/-! ### Oracle -/

/-- The truth of an atom for a row with the number `n`. -/
def numberedTruth (truth : Expr → Truth) (n : ℕ) (e : Expr) : Truth :=
  match e.comparison? with
  | some c => Truth.ofBool (c.holds n)
  | none => truth e

/-- What a query returns in Oracle. -/
def Query.oracleRows (q : Query) (truth : α → Expr → Truth) (m : Meaning α β κ) (rows : List α) :
    List β :=
  q.block.select m (accept (fun n r => match q.selection with
    | none => true
    | some e => (e.formula.truth (numberedTruth (truth r) n)).holds) 0 rows)

end Rows

/-! ### The condition -/

namespace Query

/-- The conjuncts of the `WHERE` clause. -/
def conjuncts (q : Query) : List Expr :=
  match q.selection with
  | none => []
  | some e => Translate.conjuncts e

/-- The query is of the form the pass is for: the parser builds its `WHERE` clause, and every
conjunct is a `ROWNUM` comparison or does not mention `ROWNUM`. -/
structure WellFormed (q : Query) : Prop where
  parsed : ∀ e ∈ q.selection, e.formula.Parsed
  form : ∀ c ∈ q.conjuncts, c.comparison?.isSome ∨ c.mentionsRownum = false

/-- The bound of the comparisons in Oracle. -/
def oracleBound (q : Query) : ℕ∞ :=
  ((q.conjuncts.filterMap Expr.comparison?).map Comparison.bound).foldr lesser ⊤

/-- The conjuncts that stay in the `WHERE` clause. -/
def kept (q : Query) : List Expr := q.conjuncts.filter fun c => rownumEffect c = none

/-- The limit a conjunct is read as. -/
def conjunctLimit (c : Expr) : Option ℚ :=
  match rownumEffect c with
  | some (.limit e) => limitValue e
  | _ => none

/-- Tighten a bound. -/
def tighten (bound : Option ℚ) (v : ℚ) : Option ℚ :=
  match bound with
  | none => some v
  | some u => some (min u v)

/-- The bound of the conjuncts as they are read: none at all where one is read as never true,
otherwise the least of the limits as a number of rows, which may be an error. -/
def limitBound (q : Query) : Option ℕ∞ :=
  if ∃ c ∈ q.conjuncts, rownumEffect c = some .empty then some 0
  else
    match (q.conjuncts.filterMap conjunctLimit).foldl tighten none with
    | none => some ⊤
    | some v => (limitRows v).map (Nat.cast : ℕ → ℕ∞)

/-- The row limit can be lifted: every comparison is read, the bounds as they are read fit the
bounds of Oracle for this block, and the remaining predicate keeps its grouping. -/
def Lifts (q : Query) : Prop :=
  (∀ c ∈ q.kept, c.mentionsRownum = false) ∧
  ∃ M, q.limitBound = some M ∧ q.block.Fits q.oracleBound M ∧
    (q.oracleBound = 0 ∨ KeepsGrouping q.kept)

/-- The translated query returns the same rows as Oracle: whatever the table, whatever its rows
make of the other predicates, and whatever the block computes. -/
def Faithful (q : Query) : Prop :=
  ∀ (α β κ : Type) [DecidableEq α] [DecidableEq β] [DecidableEq κ] (truth : α → Expr → Truth)
    (m : Meaning α β κ) (rows : List α),
    (translateQuery q).rows truth m rows = some (q.oracleRows truth m rows)

end Query

/-! ### Limits have the value of the bound -/

/-- An expression has a value as a limit, and the pass reads no other number from it. -/
def Sound (e : Expr) (v : ℚ) : Prop := limitValue e = some v ∧ ∀ n, constU64 e = some n → v = n

lemma sound_num {n : ℕ} : Sound (num n) n := by
  refine ⟨by simp [num, limitValue, NumberLit.value], fun m hm => ?_⟩
  have hvalue := NumberLit.value_of_parseU64 (n := { mantissa := n }) hm
  simpa [NumberLit.value] using hvalue

lemma limitValue_of_constValue {e : Expr} {v : ℚ} (h : e.constValue = some v) :
    limitValue e = some v := by
  unfold Expr.constValue at h
  split at h
  · exact h
  · simpa [limitValue] using h
  · cases h

/-- A constant that is not read as a number is a sound limit. -/
lemma sound_of_not_const {e : Expr} {v : ℚ} (h : e.constValue = some v) (hc : constU64 e = none) :
    Sound e v :=
  ⟨limitValue_of_constValue h, fun n hn => by simp [hc] at hn⟩

/-- A constant that is read as a positive number has that value. -/
lemma value_of_constU64_pos {e : Expr} {v : ℚ} {n : ℕ} (h : e.constValue = some v)
    (hn : constU64 e = some n) (hpos : 0 < n) : v = n := by
  unfold Expr.constValue at h
  split at h
  · rw [← Option.some.inj h]
    exact NumberLit.value_of_parseU64 hn
  · obtain rfl : 0 = n := Option.some.inj hn
    exact absurd hpos (lt_irrefl 0)
  · cases h

/-- **The tighter of two sound limits is a sound limit**, with the lesser value. -/
lemma sound_leastExpr {a b : Expr} {x y : ℚ} (ha : Sound a x) (hb : Sound b y) :
    Sound (leastExpr a b) (min x y) := by
  unfold leastExpr
  split
  · next m n hm hn =>
    obtain rfl := ha.2 m hm
    obtain rfl := hb.2 n hn
    by_cases hlt : n < m
    · rw [if_pos hlt, min_eq_right (by exact_mod_cast hlt.le)]
      exact hb
    · rw [if_neg hlt, min_eq_left (by exact_mod_cast not_lt.1 hlt)]
      exact ha
  · refine ⟨by simp [limitValue, ha.1, hb.1], fun n hn => ?_⟩
    simp [constU64] at hn

/-- A comparison with a sound or negative bound is read as a sound limit, if as a limit at all. -/
lemma sound_comparisonEffect (op : BinaryOperator) {bound x : Expr} {v : ℚ}
    (hv : limitValue bound = some v) (h : comparisonEffect op bound = some (.limit x)) :
    ∃ w, Sound x w := by
  unfold comparisonEffect at h
  split at h
  · next hc =>
    obtain rfl : bound = x := by simpa using h
    exact ⟨v, hv, fun n hn => by simp [hc] at hn⟩
  · next hc =>
    obtain rfl : Expr.binaryOp bound .minus (num 1) = x := by simpa using h
    refine ⟨v - (1 : ℕ), ?_, fun n hn => by simp [constU64] at hn⟩
    simp [limitValue, hv, (sound_num (n := 1)).1]
  · cases h
  · next n _ =>
    unfold constEffect at h
    split at h
    · split at h
      · cases h
      · obtain rfl : num n = x := by simpa using h
        exact ⟨n, sound_num⟩
    · split at h
      · cases h
      · obtain rfl : num (n - 1) = x := by simpa using h
        exact ⟨_, sound_num⟩
    · split at h
      · obtain rfl : num 1 = x := by simpa using h
        exact ⟨_, sound_num⟩
      · cases h
    all_goals (try split at h) <;> cases h

/-- The bound of a comparison has a value. -/
lemma limitValue_rownumBound {side bound b : Expr} {v : ℚ} (hv : bound.constValue = some v)
    (h : rownumBound side bound = some b) : ∃ w, limitValue b = some w := by
  unfold rownumBound at h
  split at h
  · split at h
    · split at h
      · obtain rfl := Option.some.inj h
        exact ⟨_, sound_num.1⟩
      · cases h
    · cases h
  · split at h
    · obtain rfl := Option.some.inj h
      exact ⟨v, limitValue_of_constValue hv⟩
    · cases h

/-- **A comparison that is read as a limit is read as a sound one.** -/
lemma sound_rownumEffect {c x : Expr} (hc : c.comparison?.isSome)
    (h : rownumEffect c = some (.limit x)) : ∃ v, Sound x v := by
  cases c with
  | between e negated low high =>
    cases negated with
    | true => simp [rownumEffect] at h
    | false =>
      cases hr : e.isRownum with
      | false => simp [rownumEffect, hr] at h
      | true =>
        obtain ⟨l, hl⟩ : ∃ l, low.constValue = some l := by
          rw [← Option.isSome_iff_exists]
          cases hlow : low.constValue <;> simp_all [Expr.comparison?]
        obtain ⟨v, hv⟩ : ∃ v, high.constValue = some v := by
          rw [← Option.isSome_iff_exists]
          cases hhigh : high.constValue <;> simp_all [Expr.comparison?]
        simp only [rownumEffect, hr, if_true] at h
        cases hlo : constU64 low with
        | none => simp [hlo] at h
        | some lo =>
          simp only [hlo, Option.bind_eq_bind, Option.bind_some, Option.pure_def] at h
          split at h
          · cases h
          · split at h
            · next n hn =>
              split at h
              · cases h
              · next h1 =>
                obtain rfl : high = x := by simpa using h
                have hvn := value_of_constU64_pos hv hn (by omega)
                refine ⟨v, limitValue_of_constValue hv, fun k hk => ?_⟩
                obtain rfl : n = k := Option.some.inj (hn.symm.trans hk)
                exact hvn
            · next hn =>
              obtain rfl : high = x := by simpa using h
              exact ⟨v, sound_of_not_const hv hn⟩
  | binaryOp left op right =>
    cases hop : Relation.ofOperator op with
    | none => simp [Expr.comparison?, hop] at hc
    | some r =>
      cases hr : right.isRownum with
      | true =>
        obtain ⟨v, hv⟩ : ∃ v, left.constValue = some v := by
          rw [← Option.isSome_iff_exists]
          cases hl : left.constValue <;> simp_all [Expr.comparison?]
        have hl : left.isRownum = false := by
          cases left <;> simp_all [Expr.isRownum, Expr.constValue]
        cases hf : flipComparison op with
        | none => simp [rownumEffect, hr, hl, hf] at h
        | some op' =>
          cases hb : rownumBound right left with
          | none => simp [rownumEffect, hr, hl, hf, hb] at h
          | some b =>
            obtain ⟨w, hw⟩ := limitValue_rownumBound hv hb
            refine sound_comparisonEffect op' hw ?_
            simpa [rownumEffect, hr, hl, hf, hb] using h
      | false =>
        obtain ⟨v, hv⟩ : ∃ v, right.constValue = some v := by
          rw [← Option.isSome_iff_exists]
          cases hl : right.constValue <;> simp_all [Expr.comparison?]
        cases hb : rownumBound left right with
        | none => simp [rownumEffect, hr, hb] at h
        | some b =>
          obtain ⟨w, hw⟩ := limitValue_rownumBound hv hb
          refine sound_comparisonEffect op hw ?_
          simpa [rownumEffect, hr, hb] using h
  | _ => simp [rownumEffect] at h

/-! ### What the pass makes of the conjuncts -/

/-- The limit of the loop has the value of the limits so far. -/
lemma foldl_step_limit (cs : List Expr)
    (hcs : ∀ c ∈ cs, ∀ x, rownumEffect c = some (.limit x) → ∃ v, Sound x v) (s : StripState)
    (hs : ∀ e ∈ s.limit, ∃ v, Sound e v) :
    (∀ e ∈ (cs.foldl StripState.step s).limit, ∃ v, Sound e v) ∧
    (cs.foldl StripState.step s).limit.bind limitValue =
      (cs.filterMap Query.conjunctLimit).foldl Query.tighten (s.limit.bind limitValue) := by
  induction cs generalizing s with
  | nil => exact ⟨hs, rfl⟩
  | cons c cs ih =>
    simp only [List.mem_cons, forall_eq_or_imp] at hcs
    obtain ⟨hc, hcs⟩ := hcs
    rw [List.foldl_cons]
    have hskip : (s.step c).limit = s.limit → Query.conjunctLimit c = none → _ :=
      fun hl hn => (List.filterMap_cons_none (l := cs) hn).symm ▸ hl ▸ ih hcs (s.step c) (hl ▸ hs)
    cases heff : rownumEffect c with
    | none =>
      exact hskip (by simp [StripState.step, heff]) (by simp [Query.conjunctLimit, heff])
    | some eff =>
      cases eff with
      | empty =>
        exact hskip (by simp [StripState.step, heff]) (by simp [Query.conjunctLimit, heff])
      | allRows =>
        exact hskip (by simp [StripState.step, heff]) (by simp [Query.conjunctLimit, heff])
      | limit x =>
        obtain ⟨v, hv⟩ := hc x heff
        have hlim : Query.conjunctLimit c = some v := by simp [Query.conjunctLimit, heff, hv.1]
        rw [List.filterMap_cons_some hlim, List.foldl_cons]
        cases hsl : s.limit with
        | none =>
          have hstep : s.step c = { s with limit := some x } := by
            simp [StripState.step, heff, hsl]
          rw [hstep]
          simpa [hv.1, Query.tighten] using ih hcs { s with limit := some x } (by simpa using ⟨v, hv⟩)
        | some e =>
          obtain ⟨u, hu⟩ := hs e hsl
          have hleast := sound_leastExpr hu hv
          have hstep : s.step c = { s with limit := some (leastExpr e x) } := by
            simp [StripState.step, heff, hsl]
          rw [hstep]
          simpa [hu.1, hleast.1, Query.tighten] using
            ih hcs { s with limit := some (leastExpr e x) } (by simpa using ⟨_, hleast⟩)

lemma foldl_step_kept (cs : List Expr) (s : StripState) :
    (cs.foldl StripState.step s).kept = s.kept ++ cs.filter fun c => rownumEffect c = none := by
  induction cs generalizing s with
  | nil => simp
  | cons c cs ih =>
    rw [List.foldl_cons, ih]
    cases heff : rownumEffect c with
    | none => simp [StripState.step, heff]
    | some eff => cases eff <;> simp [StripState.step, heff]

lemma foldl_step_forcedEmpty (cs : List Expr) (s : StripState) :
    (cs.foldl StripState.step s).forcedEmpty = true ↔
      s.forcedEmpty = true ∨ ∃ c ∈ cs, rownumEffect c = some .empty := by
  induction cs generalizing s with
  | nil => simp
  | cons c cs ih =>
    rw [List.foldl_cons, ih]
    cases heff : rownumEffect c with
    | none => simp [StripState.step, heff]
    | some eff => cases eff <;> simp [StripState.step, heff]

/-- What the translation has for a selection, and for none. -/
def Query.stripped (q : Query) : Option Expr × Option Expr :=
  match q.selection with
  | none => (none, none)
  | some selection => stripRownumPredicate selection

variable {q : Query}

lemma stripped_fst (q : Query) : q.stripped.1 = rebuildAnd q.kept := by
  unfold Query.stripped Query.kept Query.conjuncts
  cases q.selection with
  | none => rfl
  | some e =>
    simp only [stripRownumPredicate]
    split <;> simp [foldl_step_kept]

/-- **The limit of the translation is the bound as it is read.** -/
lemma stripped_snd (h : q.WellFormed) :
    q.limitBound =
      match q.stripped.2 with
      | none => some ⊤
      | some e => ((limitValue e).bind limitRows).map (Nat.cast : ℕ → ℕ∞) := by
  have hsound : ∀ c ∈ q.conjuncts, ∀ x, rownumEffect c = some (.limit x) → ∃ v, Sound x v := by
    intro c hc x hx
    refine sound_rownumEffect ((h.form c hc).resolve_right fun hno => ?_) hx
    simp [rownumEffect_of_not_mentionsRownum hno] at hx
  obtain ⟨hs, hv⟩ := foldl_step_limit q.conjuncts hsound {} (by simp)
  have hempty := foldl_step_forcedEmpty q.conjuncts {}
  simp only [Bool.false_eq_true, false_or] at hempty
  have hstrip : q.stripped.2 =
      if (q.conjuncts.foldl StripState.step {}).forcedEmpty then some (num 0)
      else (q.conjuncts.foldl StripState.step {}).limit := by
    unfold Query.stripped Query.conjuncts
    cases q.selection with
    | none => rfl
    | some e =>
      simp only [stripRownumPredicate]
      split <;> rfl
  rw [Query.limitBound, hstrip]
  by_cases he : ∃ c ∈ q.conjuncts, rownumEffect c = some .empty
  · rw [if_pos he, if_pos (hempty.2 he)]
    simp [(sound_num (n := 0)).1, limitRows, roundAway]
    norm_num
  · rw [if_neg he, if_neg (fun hf => he (hempty.1 hf))]
    rw [Option.bind_none] at hv
    rw [← hv]
    cases hl : (q.conjuncts.foldl StripState.step {}).limit with
    | none => rfl
    | some e =>
      obtain ⟨v, hsv, -⟩ := hs e hl
      simp [hsv]

lemma mentionsRownum_rebuildAnd (cs : List Expr) :
    (∀ e ∈ rebuildAnd cs, e.mentionsRownum = false) ↔ ∀ c ∈ cs, c.mentionsRownum = false := by
  have h : ∀ (cs : List Expr) (c : Expr),
      (cs.foldl (fun acc next => Expr.binaryOp acc .and next) c).mentionsRownum = false ↔
        c.mentionsRownum = false ∧ ∀ d ∈ cs, d.mentionsRownum = false := by
    intro cs
    induction cs with
    | nil => simp
    | cons d ds ih => intro c; simp [ih, Expr.mentionsRownum, and_assoc]
  cases cs with
  | nil => simp [rebuildAnd]
  | cons c cs => simp [rebuildAnd, h]

section Rows

variable {α β κ : Type} [DecidableEq α] [DecidableEq β] [DecidableEq κ]

/-- **The translated query bounds its block by the bound as it is read.** -/
theorem rows_translateQuery (h : q.WellFormed) (truth : α → Expr → Truth) (m : Meaning α β κ)
    (rows : List α) :
    (translateQuery q).rows truth m rows =
      (filterRows truth (rebuildAnd q.kept) rows).bind fun kept =>
        q.limitBound.bind fun M => q.block.limited m M kept := by
  have htr : translateQuery q =
      match q.stripped.2 with
      | none => .block q.block q.stripped.1 none
      | some limit =>
        if q.block.ordered = false then .block q.block q.stripped.1 (some limit)
        else .wrapped { q.block with ordered := false } q.stripped.1 limit
          { q.block with distinct := false } := by
    unfold translateQuery Query.stripped
    cases q.selection <;> rfl
  rw [htr, stripped_snd h, stripped_fst]
  cases hl : q.stripped.2 with
  | none =>
    simp only [PgQuery.rows]
    cases filterRows truth (rebuildAnd q.kept) rows <;> rfl
  | some e =>
    cases hord : q.block.ordered with
    | false =>
      simp only [if_true, PgQuery.rows]
      cases filterRows truth (rebuildAnd q.kept) rows with
      | none => rfl
      | some kept =>
        cases (limitValue e).bind limitRows with
        | none => rfl
        | some n =>
          change _ = (if q.block.ordered then _ else _)
          rw [hord]
          rfl
    | true =>
      simp only [Bool.true_eq_false, if_false, PgQuery.rows]
      cases filterRows truth (rebuildAnd q.kept) rows with
      | none => rfl
      | some kept =>
        cases (limitValue e).bind limitRows with
        | none => rfl
        | some n =>
          change _ = (if q.block.ordered then _ else _)
          rw [if_pos hord]
          rfl

end Rows

/-! ### Oracle -/

section Oracle

/-- Whether a conjunct lets a row with a number through: a comparison looks at the number, any
other conjunct at the row. -/
lemma holds_numberedTruth {c : Expr} (hc : c.comparison?.isSome ∨ c.mentionsRownum = false)
    (truth : Expr → Truth) (n : ℕ) :
    (c.formula.truth (numberedTruth truth n)).holds =
      match c.comparison? with
      | some r => r.holds n
      | none => (c.formula.truth truth).holds := by
  cases hr : c.comparison? with
  | some r =>
    have hatom : c.formula = .atom c := by
      cases c with
      | binaryOp l op r => cases op <;> simp_all [Expr.comparison?, Relation.ofOperator, Expr.formula]
      | between e negated low high => rfl
      | _ => simp_all [Expr.comparison?]
    rw [hatom]
    simp [Formula.truth, numberedTruth, hr]
  | none =>
    have hno : c.mentionsRownum = false := by simpa [hr] using hc
    refine congrArg Truth.holds (Formula.truth_congr _ fun a ha => ?_)
    have hna := Expr.comparison?_of_not_mentionsRownum (Expr.not_mentionsRownum_of_mem_atoms hno ha)
    simp [numberedTruth, hna]

variable {α β κ : Type} [DecidableEq α] [DecidableEq β] [DecidableEq κ]

/-- The rows that pass every conjunct that is not a comparison. -/
def Query.candidates (q : Query) (truth : α → Expr → Truth) (rows : List α) : List α :=
  rows.filter fun r => (q.conjuncts.filter fun c => c.comparison? = none).all fun c =>
    (c.formula.truth (truth r)).holds

omit [DecidableEq α] in
/-- **Oracle bounds the candidate rows by the bound of the comparisons.** -/
theorem oracleRows_eq (h : q.WellFormed) (truth : α → Expr → Truth) (m : Meaning α β κ)
    (rows : List α) :
    q.oracleRows truth m rows =
      q.block.select m (cap q.oracleBound (q.candidates truth rows)) := by
  rw [Query.oracleRows, Query.candidates]
  congr 1
  have hbound := IsBound.all Comparison.isBound (q.conjuncts.filterMap Expr.comparison?)
  refine accept_eq_cap (fun i r => ?_) hbound rows
  have hall : (match q.selection with
      | none => true
      | some e => (e.formula.truth (numberedTruth (truth r) (0 + i))).holds) =
      q.conjuncts.all fun c => (c.formula.truth (numberedTruth (truth r) i)).holds := by
    unfold Query.conjuncts
    cases q.selection with
    | none => rfl
    | some e =>
      rw [zero_add]
      change (Formula.truth _ e.formula).holds = (Translate.conjuncts e).all _
      rw [truth_eq_meet_conjuncts, Formula.meet, Truth.holds_foldl_inf, List.all_map]
      rfl
  refine hall.trans ?_
  have hform := h.form
  generalize q.conjuncts = cs at hform ⊢
  induction cs with
  | nil => rfl
  | cons c cs ih =>
    simp only [List.mem_cons, forall_eq_or_imp] at hform
    rw [List.all_cons, ih hform.2, holds_numberedTruth hform.1]
    cases hr : c.comparison? with
    | none => simp [hr, Bool.and_assoc]
    | some r => simp [hr, Bool.and_left_comm]

end Oracle

/-! ### Both sides -/

namespace Query

section Kept

/-- Where every comparison is read, what is kept is what Oracle tests on the row. -/
lemma kept_eq (h : q.WellFormed) (hk : ∀ c ∈ q.kept, c.mentionsRownum = false) :
    q.kept = q.conjuncts.filter fun c => c.comparison? = none := by
  refine List.filter_congr fun c hc => ?_
  rw [decide_eq_decide]
  constructor
  · intro hnone
    exact Expr.comparison?_of_not_mentionsRownum
      (hk c (List.mem_filter.2 ⟨hc, decide_eq_true hnone⟩))
  · intro hnone
    refine rownumEffect_of_not_mentionsRownum ((h.form c hc).resolve_left ?_)
    simp [hnone]

lemma parsed_of_mem_kept (h : q.WellFormed) {c : Expr} (hc : c ∈ q.kept) :
    c.formula.Parsed ∧ c.formula.level ≠ 1 := by
  have hmem : c ∈ q.conjuncts := (List.mem_filter.1 hc).1
  unfold conjuncts at hmem
  cases hs : q.selection with
  | none => simp [hs] at hmem
  | some e => exact parsed_of_mem_conjuncts (h.parsed e hs) (by simpa [hs] using hmem)

variable {α : Type}

/-- Without `ROWNUM` the text of the kept conjuncts is read as some predicate. -/
lemma exists_filterRows (hk : ∀ c ∈ q.kept, c.mentionsRownum = false)
    (truth : α → Expr → Truth) (rows : List α) :
    ∃ kept, filterRows truth (rebuildAnd q.kept) rows = some kept := by
  have hno := (mentionsRownum_rebuildAnd q.kept).2 hk
  cases hkept : q.kept with
  | nil => exact ⟨rows, rfl⟩
  | cons c cs =>
    obtain ⟨g, hg, -⟩ := Formula.exists_read_chain c.formula (cs.map Expr.formula)
    obtain ⟨e, he⟩ : ∃ e, rebuildAnd (c :: cs) = some e := ⟨_, rfl⟩
    have hform : e.formula = (cs.map Expr.formula).foldl .and c.formula := by
      simpa [he] using formula_rebuildAnd c cs
    rw [hkept, he] at hno
    rw [he]
    exact ⟨rows.filter fun r => (g.truth (truth r)).holds,
      by simp [filterRows, hno e rfl, hform, hg]⟩

/-- Where the kept conjuncts keep their grouping, the translated `WHERE` clause lets through what
Oracle tests on the row. -/
lemma filterRows_of_keepsGrouping (h : q.WellFormed)
    (hk : ∀ c ∈ q.kept, c.mentionsRownum = false) (hg : KeepsGrouping q.kept)
    (truth : α → Expr → Truth) (rows : List α) :
    filterRows truth (rebuildAnd q.kept) rows = some (q.candidates truth rows) := by
  have hno := (mentionsRownum_rebuildAnd q.kept).2 hk
  rw [candidates, ← kept_eq h hk]
  by_cases hne : q.kept = []
  · simp [hne, rebuildAnd, filterRows]
  · obtain ⟨f, hf, hv⟩ := read_rebuildAnd hne (fun c hc => parsed_of_mem_kept h hc) hg
    cases he : rebuildAnd q.kept with
    | none => simp [he] at hf
    | some e =>
      rw [he] at hno hf
      have hread : Formula.read e.formula.print = some f := by simpa using hf
      simp only [filterRows, hno e rfl, hread, Option.map_some, Bool.false_eq_true, if_false]
      congr 1
      refine List.filter_congr fun r _ => ?_
      rw [hv, Formula.meet, Truth.holds_foldl_inf, List.all_map]
      rfl

/-- Over distinct atoms, all the kept conjuncts can be true at once. -/
lemma exists_all_true (hd : (q.kept.flatMap fun c => c.formula.atoms).Nodup) :
    ∃ v : Expr → Truth, ∀ c ∈ q.kept, c.formula.truth v = ⊤ := by
  obtain ⟨v, hv, -⟩ := Formula.exists_truth_list (q.kept.map fun c => (c.formula, true))
    (fun _ => ⊤) (by rwa [List.flatMap_map])
  exact ⟨v, fun c hc => hv (c.formula, true) (List.mem_map.2 ⟨c, hc, rfl⟩)⟩

lemma candidates_of_true (h : q.WellFormed) (hk : ∀ c ∈ q.kept, c.mentionsRownum = false)
    {v : Expr → Truth} (hv : ∀ c ∈ q.kept, c.formula.truth v = ⊤) (rows : List α) :
    q.candidates (fun _ => v) rows = rows := by
  rw [candidates, ← kept_eq h hk, List.filter_eq_self]
  intro r _
  rw [List.all_eq_true]
  intro c hc
  rw [hv c hc]
  rfl

end Kept

/-- **Lifting is enough**: the translated query returns the rows Oracle returns. -/
lemma Lifts.faithful (h : q.WellFormed) (hl : q.Lifts) : q.Faithful := by
  intro α β κ _ _ _ truth m rows
  obtain ⟨hk, M, hM, hfit, hgroup⟩ := hl
  obtain ⟨kept, hkept⟩ := exists_filterRows hk truth rows
  rw [rows_translateQuery h, oracleRows_eq h, hkept, hM, Option.bind_some, Option.bind_some,
    Block.limited_eq_of_fits hfit]
  rcases hgroup with h0 | hg
  · simp [h0]
  · rw [filterRows_of_keepsGrouping h hk hg] at hkept
    rw [Option.some.inj hkept]

/-- **Lifting is necessary** over distinct atoms. -/
lemma Faithful.lifts (h : q.WellFormed) (hd : (q.kept.flatMap fun c => c.formula.atoms).Nodup)
    (hf : q.Faithful) : q.Lifts := by
  have hk : ∀ c ∈ q.kept, c.mentionsRownum = false := by
    rw [← mentionsRownum_rebuildAnd]
    intro e he
    by_contra hrow
    rw [Bool.not_eq_false] at hrow
    have hbad := hf ℕ ℕ ℕ (fun _ _ => ⊤) (Block.numbers List.length) []
    rw [rows_translateQuery h, he] at hbad
    simp [filterRows, hrow] at hbad
  obtain ⟨M, hM⟩ : ∃ M, q.limitBound = some M := by
    rw [← Option.isSome_iff_exists]
    by_contra hnone
    obtain ⟨kept, hkept⟩ := exists_filterRows hk (fun (_ : ℕ) _ => ⊤) []
    have hbad := hf ℕ ℕ ℕ (fun _ _ => ⊤) (Block.numbers List.length) []
    rw [rows_translateQuery h, hkept] at hbad
    simp only [Bool.not_eq_true, Option.isSome_eq_false_iff, Option.isNone_iff_eq_none] at hnone
    simp [hnone] at hbad
  have hrun : ∀ (truth : ℕ → Expr → Truth) (m : Meaning ℕ ℕ ℕ) (rows kept : List ℕ),
      filterRows truth (rebuildAnd q.kept) rows = some kept →
      q.block.limited m M kept =
        some (q.block.select m (cap q.oracleBound (q.candidates truth rows))) := by
    intro truth m rows kept hkept
    have := hf ℕ ℕ ℕ truth m rows
    rwa [rows_translateQuery h, oracleRows_eq h, hkept, hM] at this
  obtain ⟨v, hv⟩ := exists_all_true hd
  refine ⟨hk, M, hM, ?_⟩
  by_cases hg : KeepsGrouping q.kept
  · refine ⟨Block.fits_of_limited_eq fun m rows => ?_, Or.inr hg⟩
    have := hrun (fun _ => v) m rows _ (filterRows_of_keepsGrouping h hk hg _ rows)
    rwa [candidates_of_true h hk hv] at this
  · -- the text lets through a row that Oracle does not, so the limit must be zero
    obtain ⟨w, f, hread, hft, hfb⟩ :=
      rebuildAnd_changes (fun c hc => parsed_of_mem_kept h hc) hg hd
    have hM0 : M = 0 := by
      by_contra hM0
      have hread' : filterRows (fun (_ : ℕ) => w) (rebuildAnd q.kept) [0] = some [0] := by
        have hno := (mentionsRownum_rebuildAnd q.kept).2 hk
        cases he : rebuildAnd q.kept with
        | none => simp [he] at hread
        | some e =>
          rw [he] at hno hread
          have hread' : Formula.read e.formula.print = some f := by simpa using hread
          simp [filterRows, hno e rfl, hread', hft]
      have hcand : q.candidates (fun (_ : ℕ) => w) [0] = [] := by
        rw [candidates, ← kept_eq h hk, List.filter_eq_nil_iff]
        intro r _ hall
        have hmeet : (Formula.meet w (q.kept.map Expr.formula) ⊤).holds = true := by
          rw [Formula.meet, Truth.holds_foldl_inf, List.all_map]
          exact hall
        rw [hfb] at hmeet
        exact absurd hmeet (by decide)
      refine Block.limited_singleton_ne q.block hM0 ?_
      rw [hrun _ _ _ _ hread', hcand, cap_nil]
    subst hM0
    have hfit : q.block.Fits q.oracleBound 0 := by
      refine Block.fits_of_limited_eq fun m rows => ?_
      obtain ⟨kept, hkept⟩ := exists_filterRows hk (fun (_ : ℕ) => v) rows
      have hzero := hrun (fun _ => v) m rows kept hkept
      rw [candidates_of_true h hk hv] at hzero
      rw [Block.limited_zero q.block m rows kept, hzero]
    exact ⟨hfit, Or.inl hfit.eq_zero⟩

end Query

/-- **When the translated query returns the same rows as Oracle.** It does when the row limit can
be lifted; and over distinct atoms it does only then. -/
theorem faithful_iff_lifts (q : Query) (h : q.WellFormed) :
    (q.Lifts → q.Faithful) ∧
    ((q.kept.flatMap fun c => c.formula.atoms).Nodup → (q.Faithful ↔ q.Lifts)) :=
  ⟨Query.Lifts.faithful h, fun hd => ⟨Query.Faithful.lifts h hd, Query.Lifts.faithful h⟩⟩

/-- The predicate `ROWNUM <= 2`. -/
def firstTwo : Expr := .binaryOp (.identifier "ROWNUM") .ltEq (num 2)

/-- `SELECT * FROM t WHERE ROWNUM <= 2`. -/
def selectFirstTwo : Query := ⟨⟨.plain, false, false, false⟩, some firstTwo⟩

/-- `SELECT COUNT(*) FROM t WHERE ROWNUM <= 2`. -/
def countFirstTwo : Query := ⟨⟨.aggregate, false, false, false⟩, some firstTwo⟩

/-- A plain block returns its first two rows. -/
theorem selectFirstTwo_faithful : selectFirstTwo.Faithful := by
  refine (faithful_iff_lifts selectFirstTwo ⟨by decide, by decide⟩).1 ⟨by decide, 2, ?_, ?_, ?_⟩
  · decide +kernel
  · decide +kernel
  · exact Or.inr (by decide +kernel)

/-- A count over three rows should be two, but the limit leaves the count of all three. -/
theorem countFirstTwo_not_faithful : ¬ countFirstTwo.Faithful := by
  intro h
  have hrows := h ℕ ℕ ℕ (fun _ _ => ⊤) (Block.numbers List.length) [0, 1, 2]
  revert hrows
  decide +kernel

end DbSaci.Translate
