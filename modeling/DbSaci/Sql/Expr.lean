import DbSaci.Library.Formula
import Mathlib.Data.Rat.Floor
import Mathlib.Algebra.Order.Round

set_option relaxedAutoImplicit false
set_option autoImplicit false

/-!
# SQL expressions

The part of the parser's expression tree that the row-limit pass looks at. Everything else an
expression can be is an `other` node: the pass moves such a node as a whole and never looks
inside it.

## Main definitions

* `NumberLit` — a number literal as it is written, with the `u64` it parses to and its value.
* `Expr` — expressions; parentheses are nodes, as the parser keeps them.
* `Expr.formula` — the Boolean structure of an expression, over its atoms.
* `Expr.MentionsRownum` — whether the identifier `ROWNUM` occurs.
-/

namespace DbSaci.Sql

/-- A number literal `digits[.digits]`: its digits read as one natural number, and how many of
them stand behind the point, if it is written with one. -/
structure NumberLit where
  mantissa : ℕ
  point : Option ℕ := none
  deriving DecidableEq, Repr

namespace NumberLit

/-- The text of the literal parsed as a `u64`: a point or a value from `2^64` on is an error. -/
def parseU64 (n : NumberLit) : Option ℕ :=
  match n.point with
  | none => if n.mantissa < 2 ^ 64 then some n.mantissa else none
  | some _ => none

/-- The number the literal denotes. -/
def value (n : NumberLit) : ℚ := n.mantissa / 10 ^ n.point.getD 0

/-- A literal that parses denotes the number it parses to. -/
lemma value_of_parseU64 {n : NumberLit} {m : ℕ} (h : n.parseU64 = some m) : n.value = m := by
  obtain ⟨mantissa, _ | point⟩ := n
  · simp only [parseU64, Option.ite_none_right_eq_some, Option.some.injEq] at h
    simp [value, h.2]
  · simp [parseU64] at h

end NumberLit

/-- Binary operators. -/
inductive BinaryOperator
  | plus | minus | multiply | divide | stringConcat
  | eq | notEq | lt | ltEq | gt | gtEq
  | and | or
  deriving DecidableEq, Repr

/-- Unary operators. -/
inductive UnaryOperator
  | plus | minus | not
  deriving DecidableEq, Repr

/-- Expressions. `least` is a call of the function `LEAST` with two arguments. -/
inductive Expr
  | identifier (value : String)
  | number (n : NumberLit)
  | binaryOp (left : Expr) (op : BinaryOperator) (right : Expr)
  | unaryOp (op : UnaryOperator) (expr : Expr)
  | nested (expr : Expr)
  | between (expr : Expr) (negated : Bool) (low high : Expr)
  | least (a b : Expr)
  | other (text : String)
  deriving DecidableEq, Repr

namespace Expr

/-- The Boolean structure of an expression. Whatever is not `AND`, `OR`, `NOT` or a pair of
parentheses is an atom. -/
def formula : Expr → Formula Expr
  | binaryOp l .and r => .and l.formula r.formula
  | binaryOp l .or r => .or l.formula r.formula
  | unaryOp .not e => .not e.formula
  | nested e => .nested e.formula
  | e => .atom e

/-- The identifier `ROWNUM`, in any letter case. -/
def isRownum : Expr → Bool
  | identifier value => value.toList.map Char.toLower == "rownum".toList
  | _ => false

@[simp] lemma isRownum_binaryOp (l : Expr) (op : BinaryOperator) (r : Expr) :
    (binaryOp l op r).isRownum = false := rfl

/-- `ROWNUM` occurs in the expression. -/
def mentionsRownum : Expr → Bool
  | identifier value => (identifier value).isRownum
  | number _ | other _ => false
  | binaryOp l _ r => l.mentionsRownum || r.mentionsRownum
  | unaryOp _ e | nested e => e.mentionsRownum
  | between e _ low high => e.mentionsRownum || low.mentionsRownum || high.mentionsRownum
  | least a b => a.mentionsRownum || b.mentionsRownum

lemma mentionsRownum_of_isRownum {e : Expr} (h : e.isRownum = true) : e.mentionsRownum = true := by
  cases e <;> simp_all [isRownum, mentionsRownum]

lemma isRownum_of_not_mentionsRownum {e : Expr} (h : e.mentionsRownum = false) :
    e.isRownum = false := by
  by_contra hne
  simp [mentionsRownum_of_isRownum (Bool.not_eq_false _ ▸ hne)] at h

/-- The atoms of an expression without `ROWNUM` do not mention it. -/
lemma not_mentionsRownum_of_mem_atoms {e a : Expr} (h : e.mentionsRownum = false)
    (ha : a ∈ e.formula.atoms) : a.mentionsRownum = false := by
  induction e with
  | binaryOp l op r ihl ihr =>
    have hlr := h
    simp only [mentionsRownum, Bool.or_eq_false_iff] at hlr
    cases op with
    | and | or =>
      simp only [formula, Formula.atoms, List.mem_append] at ha
      exact ha.elim (ihl hlr.1) (ihr hlr.2)
    | _ =>
      obtain rfl : a = _ := by simpa [formula, Formula.atoms] using ha
      exact h
  | unaryOp op e ih =>
    cases op with
    | not => exact ih h ha
    | _ =>
      obtain rfl : a = _ := by simpa [formula, Formula.atoms] using ha
      exact h
  | nested e ih => exact ih h ha
  | _ =>
    obtain rfl : a = _ := by simpa [formula, Formula.atoms] using ha
    exact h

end Expr

end DbSaci.Sql
