import DbSaci.Library.Numbering
import DbSaci.Sql.Expr
import Mathlib.Algebra.Order.Floor.Semiring
import Mathlib.Data.Rat.Floor

set_option relaxedAutoImplicit false
set_option autoImplicit false

/-!
# Comparisons of `ROWNUM`

What Oracle means by a comparison of `ROWNUM` with a constant, and how many rows the comparison
lets through: a row is offered the number of rows accepted so far plus one, so the first number
that fails the comparison is offered to every later row.

## Main definitions

* `Comparison`, `Expr.comparison?` — a comparison of `ROWNUM`, read off an expression.
* `Comparison.holds` — whether a row number satisfies it.
* `Comparison.bound` — how many rows it lets through.

## Main results

* `Comparison.isBound` — the bound is the number of rows before the comparison first fails.
-/

namespace DbSaci.Sql

/-- The relations a comparison can ask for. -/
inductive Relation
  | eq | notEq | lt | ltEq | gt | gtEq
  deriving DecidableEq, Repr

namespace Relation

/-- The relation of a comparison operator. -/
def ofOperator : BinaryOperator → Option Relation
  | .eq => some eq
  | .notEq => some notEq
  | .lt => some lt
  | .ltEq => some ltEq
  | .gt => some gt
  | .gtEq => some gtEq
  | _ => none

/-- The relation with its sides exchanged. -/
def swap : Relation → Relation
  | lt => gt
  | ltEq => gtEq
  | gt => lt
  | gtEq => ltEq
  | r => r

/-- Whether the relation holds between two numbers. -/
def holds : Relation → ℚ → ℚ → Bool
  | eq, x, y => x = y
  | notEq, x, y => x ≠ y
  | lt, x, y => x < y
  | ltEq, x, y => x ≤ y
  | gt, x, y => x > y
  | gtEq, x, y => x ≥ y

/-- How many rows `ROWNUM <relation> c` lets through. -/
def bound : Relation → ℚ → ℕ∞
  | eq, c => if c = 1 then 1 else 0
  | notEq, c => if c = ⌊c⌋₊ ∧ c ≠ 0 then (⌊c⌋₊ - 1 : ℕ) else ⊤
  | lt, c => (⌈c⌉₊ - 1 : ℕ)
  | ltEq, c => ⌊c⌋₊
  | gt, c => if c < 1 then ⊤ else 0
  | gtEq, c => if c ≤ 1 then ⊤ else 0

/-- Moving a summand of the left side over. -/
lemma holds_add (r : Relation) (x s y : ℚ) : r.holds (x + s) y = r.holds x (y - s) := by
  cases r <;> simp only [holds, decide_eq_decide] <;> grind

end Relation

/-- A comparison of `ROWNUM`: `ROWNUM + shift <relation> value`, or `ROWNUM BETWEEN`. -/
inductive Comparison
  | compare (r : Relation) (shift value : ℚ)
  | between (low high : ℚ)
  deriving DecidableEq

namespace Expr

/-- The value of an integer or decimal constant, which may be negated. -/
def constValue : Expr → Option ℚ
  | number n => some n.value
  | unaryOp .minus (number n) => some (-n.value)
  | _ => none

/-- What is added to `ROWNUM` in `ROWNUM`, `ROWNUM + k` and `ROWNUM - k`. -/
def rownumShift : Expr → Option ℚ
  | binaryOp inner .plus k => if inner.isRownum then k.constValue else none
  | binaryOp inner .minus k => if inner.isRownum then k.constValue.map fun k => -k else none
  | e => if e.isRownum then some 0 else none

/-- The comparison an expression is: `ROWNUM` with a constant on either side, with `+ k` or `- k`
on the left, or between two constants. -/
def comparison? : Expr → Option Comparison
  | between e false low high =>
    if e.isRownum then do return .between (← low.constValue) (← high.constValue) else none
  | binaryOp left op right => do
    let r ← Relation.ofOperator op
    if right.isRownum then return .compare r.swap 0 (← left.constValue)
    else return .compare r (← left.rownumShift) (← right.constValue)
  | _ => none

/-- An expression without `ROWNUM` is no comparison of it. -/
lemma comparison?_of_not_mentionsRownum {e : Expr} (h : e.mentionsRownum = false) :
    e.comparison? = none := by
  cases e with
  | between e negated low high =>
    simp only [mentionsRownum, Bool.or_eq_false_iff] at h
    cases negated <;> simp [comparison?, isRownum_of_not_mentionsRownum h.1.1]
  | binaryOp left op right =>
    simp only [mentionsRownum, Bool.or_eq_false_iff] at h
    have hside : left.rownumShift = none := by
      cases left with
      | binaryOp inner arith k =>
        simp only [mentionsRownum, Bool.or_eq_false_iff] at h
        cases arith <;> simp [rownumShift, isRownum_of_not_mentionsRownum h.1.1]
      | _ => simp [rownumShift, isRownum_of_not_mentionsRownum h.1]
    cases hop : Relation.ofOperator op <;>
      simp [comparison?, hop, isRownum_of_not_mentionsRownum h.2, hside]
  | _ => rfl

end Expr

namespace Comparison

/-- Whether a row number satisfies the comparison. -/
def holds : Comparison → ℕ → Bool
  | compare r shift value, n => r.holds (n + shift) value
  | between low high, n => low ≤ n ∧ n ≤ high

/-- How many rows the comparison lets through. -/
def bound : Comparison → ℕ∞
  | compare r shift value => r.bound (value - shift)
  | between low high => if low ≤ 1 then ⌊high⌋₊ else 0

lemma isBound_floor (c : ℚ) : IsBound (fun n => decide ((n : ℚ) ≤ c)) ⌊c⌋₊ := by
  refine IsBound.coe (fun n hn => ?_) ?_
  · rw [decide_eq_true_iff, ← Nat.le_floor_iff' (Nat.succ_ne_zero n)]
    exact hn
  · rw [decide_eq_false_iff_not, ← Nat.le_floor_iff' (Nat.succ_ne_zero _)]
    omega

/-- **How many rows a relation lets through.** -/
lemma isBound_relation (r : Relation) (c : ℚ) : IsBound (fun n => r.holds n c) (r.bound c) := by
  cases r with
  | eq =>
    rw [Relation.bound]
    split
    · next h =>
      subst h
      refine IsBound.coe (k := 1) (fun n hn => ?_) ?_
      · obtain rfl : n = 0 := by omega
        simp [Relation.holds]
      · simp [Relation.holds]
    · next h => exact IsBound.zero (by simpa [Relation.holds] using fun h1 => h h1.symm)
  | notEq =>
    rw [Relation.bound]
    split
    · next h =>
      obtain ⟨hc, h0⟩ := h
      have hpos : ⌊c⌋₊ ≠ 0 := fun hz => h0 (by rw [hc, hz, Nat.cast_zero])
      refine IsBound.coe (fun n hn => ?_) ?_
      · have hne : ((n + 1 : ℕ) : ℚ) ≠ c := by
          rw [hc]
          exact_mod_cast (by omega : n + 1 ≠ ⌊c⌋₊)
        simpa [Relation.holds] using hne
      · have heq : ((⌊c⌋₊ - 1 + 1 : ℕ) : ℚ) = c := by
          rw [Nat.sub_add_cancel (Nat.one_le_iff_ne_zero.2 hpos), ← hc]
        simpa [Relation.holds] using heq
    · next h =>
      refine IsBound.top fun n => ?_
      have hne : ((n + 1 : ℕ) : ℚ) ≠ c := by
        intro heq
        refine h ⟨?_, ?_⟩
        · rw [← heq, Nat.floor_natCast]
        · rw [← heq]
          exact_mod_cast Nat.succ_ne_zero n
      simpa [Relation.holds] using hne
  | lt =>
    refine IsBound.coe (fun n hn => ?_) ?_
    · rw [Relation.holds, decide_eq_true_iff, ← Nat.lt_ceil]
      omega
    · rw [Relation.holds, decide_eq_false_iff_not, ← Nat.lt_ceil]
      omega
  | ltEq => exact isBound_floor c
  | gt =>
    rw [Relation.bound]
    split
    · next h =>
      refine IsBound.top fun n => ?_
      rw [Relation.holds, decide_eq_true_iff, Nat.cast_add, Nat.cast_one]
      have hn : (0 : ℚ) ≤ n := Nat.cast_nonneg n
      linarith
    · next h => exact IsBound.zero (by simpa [Relation.holds] using h)
  | gtEq =>
    rw [Relation.bound]
    split
    · next h =>
      refine IsBound.top fun n => ?_
      rw [Relation.holds, decide_eq_true_iff, Nat.cast_add, Nat.cast_one]
      have hn : (0 : ℚ) ≤ n := Nat.cast_nonneg n
      linarith
    · next h => exact IsBound.zero (by simpa [Relation.holds] using h)

/-- **How many rows a comparison lets through.** -/
theorem isBound (c : Comparison) : IsBound c.holds c.bound := by
  cases c with
  | compare r shift value =>
    have h := isBound_relation r (value - shift)
    simp only [← Relation.holds_add] at h
    exact h
  | between low high =>
    rw [bound]
    split
    · next h =>
      intro n
      rw [isBound_floor high n]
      refine forall₂_congr fun i _ => ?_
      have hi : low ≤ ((i + 1 : ℕ) : ℚ) := by
        rw [Nat.cast_add, Nat.cast_one]
        have : (0 : ℚ) ≤ i := Nat.cast_nonneg i
        linarith
      simp only [holds, decide_eq_true_iff, hi, true_and]
    · next h =>
      refine IsBound.zero ?_
      simpa [holds] using fun h1 => absurd h1 h

end Comparison

end DbSaci.Sql
