import DbSaci.Sql.Expr

set_option relaxedAutoImplicit false
set_option autoImplicit false

/-!
# Lifting `ROWNUM` out of a `WHERE` clause

`stripRownumPredicate` takes a `WHERE` clause apart at its conjunctions, looking through
parentheses, turns each `ROWNUM` comparison into a row limit and joins the remaining conjuncts
again.

## Main definitions

* `flattenAnd`, `rebuildAnd` — taking a clause apart and joining it again.
* `rownumEffect` — what one conjunct means as a row limit, if it is a `ROWNUM` comparison.
* `stripRownumPredicate` — the remaining predicate and the row limit.

## Main results

* `rownumEffect_of_not_mentionsRownum` — a conjunct without `ROWNUM` is kept.
* `stripRownumPredicate_of_not_mentionsRownum` — a clause without `ROWNUM` loses only its
  grouping.
-/

namespace DbSaci.Translate

open Sql

/-- What a single `ROWNUM ...` comparison means as a row limit. -/
inductive RownumEffect
  /-- `ROWNUM <= n` and the like: `LIMIT <expr>`. -/
  | limit (expr : Expr)
  /-- `ROWNUM = 2`, `ROWNUM > 1` and the like: the query returns nothing. -/
  | empty
  /-- `ROWNUM >= 1`, `ROWNUM > 0` and the like: a tautology, the predicate is dropped. -/
  | allRows
  deriving DecidableEq, Repr

/-- Append the conjuncts of an expression to `out`, looking through parentheses. -/
def flattenAnd : Expr → List Expr → List Expr
  | .binaryOp left .and right, out => flattenAnd right (flattenAnd left out)
  | .nested inner, out => flattenAnd inner out
  | other, out => out ++ [other]

/-- Join conjuncts from the left; parentheses that were looked through do not come back. -/
def rebuildAnd : List Expr → Option Expr
  | [] => none
  | acc :: conjuncts => some (conjuncts.foldl (fun acc next => .binaryOp acc .and next) acc)

/-- A number literal without a point. -/
def num (value : ℕ) : Expr := .number { mantissa := value }

/-- The constant of a bound; every negated expression counts as `0`. -/
def constU64 : Expr → Option ℕ
  | .number n => n.parseU64
  | .unaryOp .minus _ => some 0
  | _ => none

/-- The tighter of two limits, left to the server when one of them is not a constant. -/
def leastExpr (a b : Expr) : Expr :=
  match constU64 a, constU64 b with
  | some x, some y => if y < x then b else a
  | _, _ => .least a b

/-- A comparison operator with its sides exchanged. -/
def flipComparison : BinaryOperator → Option BinaryOperator
  | .lt => some .gt
  | .ltEq => some .gtEq
  | .gt => some .lt
  | .gtEq => some .ltEq
  | .eq => some .eq
  | .notEq => some .notEq
  | _ => none

/-- The bound of a comparison whose `ROWNUM` side is `side`: `ROWNUM + k <op> m` becomes
`ROWNUM <op> (m - k)` and `ROWNUM - k <op> m` becomes `ROWNUM <op> (m + k)`, in `u64`. -/
def rownumBound (side bound : Expr) : Option Expr :=
  match side with
  | .binaryOp inner arith k =>
    if (arith = .plus ∨ arith = .minus) ∧ inner.isRownum then
      match constU64 bound, constU64 k with
      | some m, some k => some (num (if arith = .plus then m - k else (m + k) % 2 ^ 64))
      | _, _ => none
    else none
  | side => if side.isRownum then some bound else none

/-- The effect of `ROWNUM <op> n` for a constant `n`. -/
def constEffect (op : BinaryOperator) (n : ℕ) : Option RownumEffect :=
  match op with
  | .ltEq => some (if n < 1 then .empty else .limit (num n))
  | .lt => some (if n ≤ 1 then .empty else .limit (num (n - 1)))
  | .eq => some (if n = 1 then .limit (num 1) else .empty)
  | .notEq => some (if n = 1 then .empty else .allRows)
  | .gtEq => some (if n ≤ 1 then .allRows else .empty)
  | .gt => some (if n < 1 then .allRows else .empty)
  | _ => none

/-- The effect of `ROWNUM <op> bound`. A bound that is not a constant still makes a limit for
the two upper-bound forms. -/
def comparisonEffect (op : BinaryOperator) (bound : Expr) : Option RownumEffect :=
  match constU64 bound, op with
  | none, .ltEq => some (.limit bound)
  | none, .lt => some (.limit (.binaryOp bound .minus (num 1)))
  | none, _ => none
  | some n, op => constEffect op n

/-- Interpret one `ROWNUM <op> n`, `n <op> ROWNUM` or `ROWNUM BETWEEN a AND b`. -/
def rownumEffect : Expr → Option RownumEffect
  | .between subject false low high =>
    if subject.isRownum then do
      let lo ← constU64 low
      if lo > 1 then return .empty
      match constU64 high with
      | some h => if h < 1 then return .empty else return .limit high
      | none => return .limit high
    else none
  | .binaryOp left op right => do
    let (op, side, bound) ←
      if !left.isRownum && right.isRownum then
        (flipComparison op).map fun op => (op, right, left)
      else some (op, left, right)
    comparisonEffect op (← rownumBound side bound)
  | _ => none

/-- The state of the loop over the conjuncts. -/
structure StripState where
  kept : List Expr := []
  limit : Option Expr := none
  forcedEmpty : Bool := false
  deriving DecidableEq, Repr

/-- One turn of the loop: keep a conjunct, or let it tighten the limit. -/
def StripState.step (s : StripState) (conjunct : Expr) : StripState :=
  match rownumEffect conjunct with
  | some (.limit expr) =>
    { s with limit := some (match s.limit with
        | some existing => leastExpr existing expr
        | none => expr) }
  | some .empty => { s with forcedEmpty := true }
  | some .allRows => s
  | none => { s with kept := s.kept ++ [conjunct] }

/-- Split a `WHERE` clause into the predicate that remains and the row limit. -/
def stripRownumPredicate (selection : Expr) : Option Expr × Option Expr :=
  let s := (flattenAnd selection []).foldl StripState.step {}
  if s.forcedEmpty then (rebuildAnd s.kept, some (num 0)) else (rebuildAnd s.kept, s.limit)

/-! ### Clauses without `ROWNUM` -/

/-- A conjunct that does not mention `ROWNUM` has no effect on the row limit. -/
lemma rownumEffect_of_not_mentionsRownum {e : Expr} (h : e.mentionsRownum = false) :
    rownumEffect e = none := by
  have hr : ∀ {e : Expr}, e.mentionsRownum = false → e.isRownum = false :=
    Expr.isRownum_of_not_mentionsRownum
  cases e with
  | between e negated low high =>
    simp only [Expr.mentionsRownum, Bool.or_eq_false_iff] at h
    cases negated <;> simp [rownumEffect, hr h.1.1]
  | binaryOp left op right =>
    simp only [Expr.mentionsRownum, Bool.or_eq_false_iff] at h
    have hside : rownumBound left right = none := by
      cases left with
      | binaryOp inner arith k =>
        simp only [Expr.mentionsRownum, Bool.or_eq_false_iff] at h
        simp [rownumBound, hr h.1.1]
      | _ => simp [rownumBound, hr h.1]
    simp [rownumEffect, hr h.2, hside]
  | _ => rfl

/-- The conjuncts of an expression. -/
abbrev conjuncts (e : Expr) : List Expr := flattenAnd e []

/-- The conjuncts are appended to what is there. -/
lemma flattenAnd_eq_append (e : Expr) (out : List Expr) :
    flattenAnd e out = out ++ conjuncts e := by
  induction e generalizing out with
  | binaryOp left op right ihl ihr =>
    cases op with
    | and =>
      calc flattenAnd right (flattenAnd left out)
          = (out ++ conjuncts left) ++ conjuncts right := by rw [ihl, ihr]
        _ = out ++ flattenAnd right (conjuncts left) := by
          rw [ihr (conjuncts left), List.append_assoc]
    | _ => rfl
  | nested inner ih => exact ih out
  | _ => rfl

@[simp] lemma conjuncts_and (left right : Expr) :
    conjuncts (.binaryOp left .and right) = conjuncts left ++ conjuncts right :=
  flattenAnd_eq_append right (conjuncts left)

@[simp] lemma conjuncts_nested (inner : Expr) : conjuncts (.nested inner) = conjuncts inner := rfl

lemma conjuncts_ne_nil (e : Expr) : conjuncts e ≠ [] := by
  induction e with
  | binaryOp l op r ihl ihr => cases op <;> simp_all [flattenAnd]
  | nested i ih => exact ih
  | _ => simp [flattenAnd]

/-- The conjuncts have the atoms of the expression, in the same order. -/
lemma flatMap_atoms_conjuncts (e : Expr) :
    (conjuncts e).flatMap (fun c => c.formula.atoms) = e.formula.atoms := by
  induction e with
  | binaryOp l op r ihl ihr => cases op <;> simp_all [flattenAnd, Expr.formula, Formula.atoms]
  | nested i ih => exact ih
  | unaryOp op e => cases op <;> simp [flattenAnd, Expr.formula]
  | _ => simp [flattenAnd, Expr.formula]

/-- The expression is true exactly as the conjunction of its conjuncts. -/
lemma truth_eq_meet_conjuncts (v : Expr → Truth) (e : Expr) :
    e.formula.truth v = Formula.meet v ((conjuncts e).map Expr.formula) ⊤ := by
  induction e with
  | binaryOp l op r ihl ihr =>
    cases op with
    | and =>
      rw [conjuncts_and, List.map_append, Formula.meet_append, ← ihl, Formula.meet_eq_inf, ← ihr]
      rfl
    | _ => simp [flattenAnd]
  | nested i ih => exact ih
  | unaryOp op e => simp [flattenAnd]
  | _ => simp [flattenAnd]

/-- The conjuncts of a parsed expression are parsed, and none is a conjunction. -/
lemma parsed_of_mem_conjuncts {e c : Expr} (h : e.formula.Parsed) (hc : c ∈ conjuncts e) :
    c.formula.Parsed ∧ c.formula.level ≠ 1 := by
  induction e with
  | binaryOp l op r ihl ihr =>
    cases op with
    | and =>
      obtain ⟨hl, -, hr, -⟩ := h
      rw [conjuncts_and, List.mem_append] at hc
      exact hc.elim (ihl hl) (ihr hr)
    | _ =>
      obtain rfl : c = _ := by simpa [flattenAnd] using hc
      exact ⟨h, by simp [Expr.formula, Formula.level]⟩
  | nested i ih => exact ih h hc
  | unaryOp op e =>
    obtain rfl : c = _ := by simpa [flattenAnd] using hc
    exact ⟨h, by cases op <;> simp [Expr.formula, Formula.level]⟩
  | _ =>
    obtain rfl : c = _ := by simpa [flattenAnd] using hc
    exact ⟨h, by simp [Expr.formula, Formula.level]⟩

/-- The conjuncts of an expression without `ROWNUM` do not mention it. -/
lemma not_mentionsRownum_of_mem_conjuncts {e c : Expr} (h : e.mentionsRownum = false)
    (hc : c ∈ conjuncts e) : c.mentionsRownum = false := by
  induction e with
  | binaryOp l op r ihl ihr =>
    cases op with
    | and =>
      simp only [Expr.mentionsRownum, Bool.or_eq_false_iff] at h
      rw [conjuncts_and, List.mem_append] at hc
      exact hc.elim (ihl h.1) (ihr h.2)
    | _ =>
      obtain rfl : c = _ := by simpa [flattenAnd] using hc
      exact h
  | nested i ih => exact ih h hc
  | _ =>
    obtain rfl : c = _ := by simpa [flattenAnd] using hc
    exact h

/-- The loop keeps every conjunct that does not mention `ROWNUM`. -/
lemma foldl_step_of_not_mentionsRownum (cs : List Expr) (h : ∀ c ∈ cs, c.mentionsRownum = false)
    (s : StripState) : cs.foldl StripState.step s = { s with kept := s.kept ++ cs } := by
  induction cs generalizing s with
  | nil => simp
  | cons c cs ih =>
    simp only [List.mem_cons, forall_eq_or_imp] at h
    simp [ih h.2, StripState.step, rownumEffect_of_not_mentionsRownum h.1]

/-- **A clause without `ROWNUM` loses only its grouping.** -/
theorem stripRownumPredicate_of_not_mentionsRownum {e : Expr} (h : e.mentionsRownum = false) :
    stripRownumPredicate e = (rebuildAnd (conjuncts e), none) := by
  have hs := foldl_step_of_not_mentionsRownum (conjuncts e)
    (fun c hc => not_mentionsRownum_of_mem_conjuncts h hc) {}
  simp [stripRownumPredicate, hs]

/-- The Boolean structure of rebuilt conjuncts. -/
lemma formula_rebuildAnd (c : Expr) (cs : List Expr) :
    (rebuildAnd (c :: cs)).map Expr.formula =
      some ((cs.map Expr.formula).foldl .and c.formula) := by
  have h : ∀ (cs : List Expr) (c : Expr),
      (cs.foldl (fun acc next => Expr.binaryOp acc .and next) c).formula =
        (cs.map Expr.formula).foldl .and c.formula := by
    intro cs
    induction cs with
    | nil => intro c; rfl
    | cons d ds ih => intro c; exact ih _
  simp [rebuildAnd, h]

end DbSaci.Translate
