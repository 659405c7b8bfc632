import DbSaci.Library.Operators
import Mathlib.Data.Multiset.Filter
import Mathlib.Data.Multiset.UnionInter
import Mathlib.Data.Multiset.FinsetOps

set_option relaxedAutoImplicit false
set_option autoImplicit false

/-!
# Set operators

The set operators of Oracle and of PostgreSQL, and what a chain of queries joined by them
denotes.  The operators compute the same multisets of rows in both; what differs is how a chain
without parentheses is read: for Oracle they all bind alike, for PostgreSQL `INTERSECT` binds
tighter.

## Main definitions

* `OracleSetOp`, `PgSetOp` — the operators, `apply` what they compute.
* `PgSetOp.precedence` — how tightly PostgreSQL binds them.
* `oracleRows`, `postgresRows` — the rows of a chain.
-/

namespace DbSaci.Sql

open DbSaci.Library

/-- The set operators of an Oracle query. -/
inductive OracleSetOp
  | union | unionAll | intersect | minus
  deriving DecidableEq, Repr

/-- The set operators of a PostgreSQL query. -/
inductive PgSetOp
  | union | unionAll | intersect | except
  deriving DecidableEq, Repr

variable {ρ κ : Type} [DecidableEq ρ]

/-- The rows an Oracle set operator makes of those of its operands: all but `UNION ALL` return
distinct rows. -/
def OracleSetOp.apply : OracleSetOp → Multiset ρ → Multiset ρ → Multiset ρ
  | union, a, b => (a + b).dedup
  | unionAll, a, b => a + b
  | intersect, a, b => a.dedup.filter (· ∈ b)
  | minus, a, b => a.dedup.filter (· ∉ b)

/-- The rows a PostgreSQL set operator makes of those of its operands. -/
def PgSetOp.apply : PgSetOp → Multiset ρ → Multiset ρ → Multiset ρ
  | union, a, b => (a + b).dedup
  | unionAll, a, b => a + b
  | intersect, a, b => a.dedup.filter (· ∈ b)
  | except, a, b => a.dedup.filter (· ∉ b)

/-- PostgreSQL binds `INTERSECT` tighter than the others. -/
def PgSetOp.precedence : PgSetOp → ℕ
  | intersect => 20
  | _ => 10

/-- The rows of a chain for Oracle, which reads the operators from left to right. -/
def oracleRows (rows : κ → Multiset ρ) (c : Chain OracleSetOp κ) : Multiset ρ :=
  (c.read fun _ => 0).eval OracleSetOp.apply rows

/-- The rows of a chain for PostgreSQL. -/
def postgresRows (rows : κ → Multiset ρ) (c : Chain PgSetOp κ) : Multiset ρ :=
  (c.read PgSetOp.precedence).eval PgSetOp.apply rows

/-! ### One row -/

/-- Whether a row is in the result of an operator, given whether it is in the operands. -/
def OracleSetOp.member : OracleSetOp → Bool → Bool → Bool
  | union, a, b => a || b
  | unionAll, a, b => a || b
  | intersect, a, b => a && b
  | minus, a, b => a && !b

/-- A row is in the result of an operator when its membership in the operands says so. -/
lemma OracleSetOp.mem_apply (o : OracleSetOp) (x : ρ) (a b : Multiset ρ) :
    decide (x ∈ o.apply a b) = o.member (decide (x ∈ a)) (decide (x ∈ b)) := by
  cases o <;> simp [apply, member]

/-- Whether a row is in the result of a whole tree depends on which operands hold it. -/
theorem mem_eval (x : ρ) (rows : κ → Multiset ρ) (t : Tree OracleSetOp κ) :
    decide (x ∈ t.eval OracleSetOp.apply rows) =
      t.eval OracleSetOp.member fun q => decide (x ∈ rows q) := by
  induction t with
  | query q => rfl
  | nested t ih => exact ih
  | node l o r ihl ihr =>
    show decide (x ∈ o.apply _ _) = o.member _ _
    rw [OracleSetOp.mem_apply, ihl, ihr]

end DbSaci.Sql
