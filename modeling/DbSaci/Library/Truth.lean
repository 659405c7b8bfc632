import Mathlib.Order.Lattice
import Mathlib.Order.BoundedOrder.Basic
import Mathlib.Order.Fin.Basic
import Mathlib.Data.Fintype.Basic

set_option relaxedAutoImplicit false
set_option autoImplicit false

/-!
# Three-valued logic

SQL predicates take one of three truth values. They are ordered `no < unknown < yes`, so that
conjunction is the infimum and disjunction the supremum of a bounded linear order, and the
lattice laws are Mathlib's.

## Main definitions

* `Truth` — the three truth values, with their linear order.
* `Truth.neg` — negation, which leaves `unknown` alone.
* `Truth.holds` — the test a `WHERE` clause makes: only `yes` keeps the row.

## Main results

* `Truth.holds_inf`, `Truth.holds_sup` — the test distributes over `⊓` and `⊔`.
* `Truth.holds_foldl_inf` — a conjunction keeps a row exactly when every conjunct does.
-/

/-- The truth values of a SQL predicate. -/
inductive Truth
  | no
  | unknown
  | yes
  deriving DecidableEq, Repr

namespace Truth

/-- The position of a truth value in the order `no < unknown < yes`. -/
def rank : Truth → Fin 3
  | no => 0
  | unknown => 1
  | yes => 2

lemma rank_injective : Function.Injective rank := by
  intro a b h
  cases a <;> cases b <;> simp_all [rank]

instance : LinearOrder Truth := LinearOrder.lift' rank rank_injective

instance : BoundedOrder Truth where
  top := yes
  le_top a := by cases a <;> decide
  bot := no
  bot_le a := by cases a <;> decide

/-- Negation: `NOT unknown` is `unknown`. -/
def neg : Truth → Truth
  | no => yes
  | unknown => unknown
  | yes => no

@[simp] lemma neg_neg (a : Truth) : a.neg.neg = a := by cases a <;> rfl

@[simp] lemma neg_top : neg ⊤ = ⊥ := rfl

@[simp] lemma neg_bot : neg ⊥ = ⊤ := rfl

/-- A filter keeps a row only when its predicate is `yes`. -/
def holds (a : Truth) : Bool := a = yes

@[simp] lemma holds_top : holds ⊤ = true := rfl

@[simp] lemma holds_bot : holds ⊥ = false := rfl

lemma holds_iff {a : Truth} : a.holds = true ↔ a = ⊤ := by
  cases a <;> decide

@[simp] lemma holds_inf (a b : Truth) : (a ⊓ b).holds = (a.holds && b.holds) := by
  cases a <;> cases b <;> decide

@[simp] lemma holds_sup (a b : Truth) : (a ⊔ b).holds = (a.holds || b.holds) := by
  cases a <;> cases b <;> decide

/-- A conjunction folded from the left keeps a row exactly when its start value and every
conjunct do. -/
lemma holds_foldl_inf {α : Type} (f : α → Truth) (xs : List α) (a : Truth) :
    (xs.foldl (fun acc x => acc ⊓ f x) a).holds = (a.holds && xs.all fun x => (f x).holds) := by
  induction xs generalizing a with
  | nil => simp
  | cons x xs ih => simp [ih, Bool.and_assoc]

/-- The truth value of a two-valued test. -/
def ofBool : Bool → Truth
  | true => yes
  | false => no

@[simp] lemma holds_ofBool (b : Bool) : (ofBool b).holds = b := by cases b <;> rfl

end Truth
