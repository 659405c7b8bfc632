import DbSaci.Sql.SetOperators
import DbSaci.Sql.Expr

set_option relaxedAutoImplicit false
set_option autoImplicit false

/-!
# Chains of set operators

`normalize_oracle_tokens` renames `MINUS` to `EXCEPT` in the text, a parser with precedences of
its own makes a tree of the chain, `translate_set_expr` visits the tree, and the tree is printed
with the parentheses the text had.  So the text that comes out is the text that went in with one
word renamed, and it is PostgreSQL that reads it.  Both databases give it the same rows for all
contents of its queries exactly when `INTERSECT` comes only after `INTERSECT`s at every level of
parentheses.

A query of the chain stands for its own translation, which keeps its rows.

## Main definitions

* `normalizeSetOp`, `translateSetExpr`, `translateChain` — the translation.
* `Truthy` — contents under which both readings of a chain hold a row.

## Main results

* `translateChain_ok` — the text that comes out is the text that went in, `MINUS` renamed.
* `postgresRows_eq_iff` — when the two databases agree on it.
-/

namespace DbSaci.Translate

open DbSaci.Library DbSaci.Sql

variable {κ ρ : Type}

/-- The operator `normalize_oracle_tokens` leaves in the text for one of Oracle's. -/
def normalizeSetOp : OracleSetOp → PgSetOp
  | .union => .union
  | .unionAll => .unionAll
  | .intersect => .intersect
  | .minus => .except

/-- `translate_set_expr` on the tree of a chain, `rowLimit` telling which queries have a `ROWNUM`
bound in their `WHERE`: the bound of a query that is not in a set operation is returned to
`translate_query`, which puts it behind the query. -/
def translateSetExpr (rowLimit : κ → Option Expr) :
    Tree PgSetOp κ → Except String (Option Expr × Tree PgSetOp κ)
  | .query q => .ok (rowLimit q, .query q)
  | .nested t => do
    let (_, t') ← translateSetExpr rowLimit t
    return (none, .nested t')
  | .node l o r => do
    let (boundLeft, l') ← translateSetExpr rowLimit l
    if boundLeft.isSome then
      throw "ROWNUM in a set operation requires an explicit nested query"
    let (boundRight, r') ← translateSetExpr rowLimit r
    if boundRight.isSome then
      throw "ROWNUM in a set operation requires an explicit nested query"
    return (none, .node l' o r')

/-- `oracle_to_postgres` on a chain, `parserPrec` being the precedences of its parser. -/
def translateChain (parserPrec : PgSetOp → ℕ) (rowLimit : κ → Option Expr)
    (c : Chain OracleSetOp κ) : Except String (Chain PgSetOp κ) := do
  let (_, t) ← translateSetExpr rowLimit ((c.map normalizeSetOp).read parserPrec)
  return t.print

/-! ### The text that comes out -/

/-- What `translate_set_expr` accepts it leaves as it is. -/
lemma translateSetExpr_ok (rowLimit : κ → Option Expr) {t t' : Tree PgSetOp κ}
    {bound : Option Expr} (h : translateSetExpr rowLimit t = .ok (bound, t')) : t' = t := by
  induction t generalizing t' bound with
  | query q =>
    cases h
    rfl
  | nested t ih =>
    rw [translateSetExpr] at h
    cases ht : translateSetExpr rowLimit t with
    | error e =>
      rw [ht] at h
      cases h
    | ok r =>
      rw [ht] at h
      cases h
      rw [ih ht]
  | node l o r ihl ihr =>
    rw [translateSetExpr] at h
    cases hl : translateSetExpr rowLimit l with
    | error e =>
      rw [hl] at h
      cases h
    | ok resultLeft =>
      obtain ⟨_ | boundLeft, l'⟩ := resultLeft
      · rw [hl] at h
        cases hr : translateSetExpr rowLimit r with
        | error e =>
          rw [hr] at h
          cases h
        | ok resultRight =>
          obtain ⟨_ | boundRight, r'⟩ := resultRight
          · rw [hr] at h
            cases h
            rw [ihl hl, ihr hr]
          · rw [hr] at h
            cases h
      · rw [hl] at h
        cases h

/-- **The translation renames `MINUS` and changes nothing else**: the tree the parser made does
not show in the text. -/
theorem translateChain_ok {parserPrec : PgSetOp → ℕ} {rowLimit : κ → Option Expr}
    {c : Chain OracleSetOp κ} {out : Chain PgSetOp κ}
    (h : translateChain parserPrec rowLimit c = .ok out) : out = c.map normalizeSetOp := by
  rw [translateChain] at h
  cases ht : translateSetExpr rowLimit ((c.map normalizeSetOp).read parserPrec) with
  | error e =>
    rw [ht] at h
    cases h
  | ok result =>
    rw [ht] at h
    cases h
    rw [translateSetExpr_ok rowLimit ht, Chain.print_read]

/-- How tightly PostgreSQL binds what it finds in the place of an operator of Oracle. -/
def bindingOf (o : OracleSetOp) : ℕ := (normalizeSetOp o).precedence

/-- The renamed operators compute what those of Oracle do. -/
lemma normalizeSetOp_apply [DecidableEq ρ] (o : OracleSetOp) :
    (normalizeSetOp o).apply (ρ := ρ) = o.apply := by
  cases o <;> rfl

/-- PostgreSQL's rows for the text that comes out, as a reading of the text that went in. -/
lemma postgresRows_map [DecidableEq ρ] (rows : κ → Multiset ρ) (c : Chain OracleSetOp κ) :
    postgresRows rows (c.map normalizeSetOp) =
      (c.read bindingOf).eval OracleSetOp.apply rows := by
  rw [postgresRows, Chain.read_map, Tree.eval_map]
  congr 1
  funext o
  exact normalizeSetOp_apply o

/-! ### One row in both readings -/

/-- All operators but `INTERSECT` bind as loosely as any. -/
lemma bindingOf_le {o : OracleSetOp} (h : o ≠ .intersect) (o' : OracleSetOp) :
    bindingOf o ≤ bindingOf o' := by
  cases o <;> cases o' <;> first | exact absurd rfl h | decide

/-- An operator that binds tighter than another is `INTERSECT`, and the other is not. -/
lemma bindingOf_lt {o o' : OracleSetOp} (h : ¬bindingOf o ≤ bindingOf o') :
    o = .intersect ∧ o' ≠ .intersect := by
  revert h
  cases o <;> cases o' <;> decide

/-- Whether the row is in the value of a tree when `v` says which queries hold it. -/
abbrev value (v : κ → Bool) (t : Tree OracleSetOp κ) : Bool := t.eval OracleSetOp.member v

/-- The membership of a right operand that leaves that of the left one alone. -/
def neutral : OracleSetOp → Bool
  | .intersect => true
  | _ => false

/-- A neutral operand changes nothing, wherever its operator is attached. -/
lemma value_attach_neutral (prec : OracleSetOp → ℕ) (v : κ → Bool) {o : OracleSetOp}
    {x : Tree OracleSetOp κ} (hx : value v x = neutral o) (t : Tree OracleSetOp κ) :
    value v (t.attach prec o x) = value v t := by
  have onTop : ∀ t : Tree OracleSetOp κ, value v (.node t o x) = value v t := fun t => by
    show o.member (value v t) (value v x) = value v t
    rw [hx]
    cases o <;> cases value v t <;> rfl
  induction t with
  | query q => exact onTop _
  | nested t => exact onTop _
  | node l o' r _ ih =>
    simp only [Tree.attach]
    split
    · show o'.member _ (value v (r.attach prec o x)) = o'.member _ _
      rw [ih]
    · exact onTop _

/-- Contents that put the row in a tree keep it there when the next operand holds the row too, or
is subtracted and does not. -/
lemma value_attach_true {prec : OracleSetOp → ℕ}
    (hprec : ∀ o, o ≠ .intersect → ∀ o', prec o ≤ prec o') {v : κ → Bool} {o : OracleSetOp}
    {t x : Tree OracleSetOp κ} (ht : value v t = true) (hx : value v x = (o != .minus)) :
    value v (t.attach prec o x) = true := by
  by_cases ho : o = .intersect
  · subst ho
    rw [value_attach_neutral prec v hx, ht]
  · rw [Tree.attach_of_le prec (hprec o ho)]
    show o.member (value v t) (value v x) = true
    rw [ht, hx]
    cases o <;> rfl

/-- Contents that keep the row out of every query keep it out of every tree. -/
lemma value_false {v : κ → Bool} {t : Tree OracleSetOp κ} (h : ∀ q ∈ t.queries, v q = false) :
    value v t = false := by
  induction t with
  | query q => exact h q (List.mem_singleton.mpr rfl)
  | nested t ih => exact ih h
  | node l o r ihl ihr =>
    show o.member (value v l) (value v r) = false
    rw [ihl fun q hq => h q (List.mem_append_left _ hq),
      ihr fun q hq => h q (List.mem_append_right _ hq)]
    cases o <;> rfl

/-- The row is in the first query of every level and in all that are added or intersected, and in
none that is subtracted. -/
def Truthy (v : κ → Bool) : Chain OracleSetOp κ → Prop
  | .query q => v q = true
  | .paren inner => Truthy v inner
  | .opQuery c o q => Truthy v c ∧ v q = (o != .minus)
  | .opParen c o inner =>
    Truthy v c ∧ if o = .minus then ∀ q ∈ inner.queries, v q = false else Truthy v inner

/-- Such contents put the row in the value of every reading under which only `INTERSECT` may
bind tighter. -/
lemma Truthy.value_read {prec : OracleSetOp → ℕ}
    (hprec : ∀ o, o ≠ .intersect → ∀ o', prec o ≤ prec o') {v : κ → Bool}
    {c : Chain OracleSetOp κ} (h : Truthy v c) : value v (c.read prec) = true := by
  induction c with
  | query q => exact h
  | paren inner ih => exact ih h
  | opQuery c o q ih => exact value_attach_true hprec (ih h.1) h.2
  | opParen c o inner ih ihi =>
    refine value_attach_true hprec (ih h.1) ?_
    show value v (inner.read prec) = _
    by_cases ho : o = .minus
    · have hv : ∀ q ∈ inner.queries, v q = false := by
        simpa only [Truthy, if_pos ho] using h.2
      rw [value_false fun q hq => hv q (Chain.queries_read prec inner ▸ hq), ho]
      rfl
    · have hv : Truthy v inner := by simpa only [Truthy, if_neg ho] using h.2
      rw [ihi hv]
      cases o <;> first | rfl | exact absurd rfl ho

/-- Being `Truthy` depends on the queries of the chain only. -/
lemma Truthy.congr {v w : κ → Bool} {c : Chain OracleSetOp κ} (hc : Truthy v c)
    (h : ∀ q ∈ c.queries, v q = w q) : Truthy w c := by
  induction c with
  | query q => exact (h q (List.mem_singleton.mpr rfl)).symm.trans hc
  | paren inner ih => exact ih hc h
  | opQuery c o q ih =>
    refine ⟨ih hc.1 fun q hq => h q (List.mem_append_left _ hq), ?_⟩
    rw [← h q (List.mem_append_right _ (List.mem_singleton.mpr rfl))]
    exact hc.2
  | opParen c o inner ih ihi =>
    refine ⟨ih hc.1 fun q hq => h q (List.mem_append_left _ hq), ?_⟩
    have hi : ∀ q ∈ inner.queries, v q = w q := fun q hq => h q (List.mem_append_right _ hq)
    have htail := hc.2
    by_cases ho : o = .minus
    · rw [if_pos ho] at htail ⊢
      exact fun q hq => (hi q hq).symm.trans (htail q hq)
    · rw [if_neg ho] at htail ⊢
      exact ihi htail hi

/-- A chain with an operator other than `INTERSECT` is read by PostgreSQL as a tree with such an
operator on top. -/
lemma exists_top {c : Chain OracleSetOp κ} {o : OracleSetOp} (h : o ∈ c.ops) (ho : o ≠ .intersect) :
    ∃ l o' r, c.read bindingOf = .node l o' r ∧ o' ≠ .intersect := by
  have step : ∀ {c : Chain OracleSetOp κ} {o' : OracleSetOp} (x : Tree OracleSetOp κ),
      (o ∈ c.ops → ∃ l o' r, c.read bindingOf = .node l o' r ∧ o' ≠ .intersect) →
      o ∈ c.ops ++ [o'] → ∃ l o'' r,
        (c.read bindingOf).attach bindingOf o' x = .node l o'' r ∧ o'' ≠ .intersect := by
    intro c o' x ih hmem
    by_cases ho' : o' = .intersect
    · rcases List.mem_append.mp hmem with hc | hlast
      · obtain ⟨l, o'', r, hread, ho''⟩ := ih hc
        refine ⟨l, o'', r.attach bindingOf o' x, ?_, ho''⟩
        rw [hread, ho']
        show (if _ then _ else _) = _
        rw [if_pos (by revert ho''; cases o'' <;> decide)]
      · exact absurd ((List.mem_singleton.mp hlast).trans ho') ho
    · exact ⟨_, o', x, Tree.attach_of_le bindingOf (bindingOf_le ho') _ _, ho'⟩
  induction c with
  | query q => cases h
  | paren inner => cases h
  | opQuery c o' q ih => exact step _ ih h
  | opParen c o' inner ih _ => exact step _ ih h

/-! ### Contents put together -/

section Combine

variable [DecidableEq κ]

/-- The contents `v` for the queries of a list and `w` for the others. -/
def combine (qs : List κ) (v w : κ → Bool) (q : κ) : Bool := if q ∈ qs then v q else w q

/-- On the list, the first contents. -/
lemma combine_left {qs : List κ} (v w : κ → Bool) : ∀ q ∈ qs, v q = combine qs v w q :=
  fun _ hq => (if_pos hq).symm

/-- On a list that shares nothing with it, the second. -/
lemma combine_right {qs qs' : List κ} (h : qs.Disjoint qs') (v w : κ → Bool) :
    ∀ q ∈ qs', w q = combine qs v w q :=
  fun _ hq => (if_neg fun hq' => h hq' hq).symm

/-- Every tree of distinct queries holds the row for some contents. -/
lemma exists_value_true {t : Tree OracleSetOp κ} (h : t.queries.Nodup) :
    ∃ v, value v t = true := by
  induction t with
  | query q => exact ⟨fun _ => true, rfl⟩
  | nested t ih => exact ih h
  | node l o r ihl ihr =>
    obtain ⟨hl, hr, hd⟩ := List.nodup_append'.mp h
    obtain ⟨v, hv⟩ := ihl hl
    by_cases ho : o = .intersect
    · obtain ⟨w, hw⟩ := ihr hr
      refine ⟨combine l.queries v w, ?_⟩
      show o.member (value _ l) (value _ r) = true
      rw [value, value, ← Tree.eval_congr _ (combine_left v w),
        ← Tree.eval_congr _ (combine_right hd v w)]
      show o.member (value v l) (value w r) = true
      rw [hv, hw, ho]
      rfl
    · refine ⟨combine l.queries v fun _ => false, ?_⟩
      show o.member (value _ l) (value _ r) = true
      rw [value, value, ← Tree.eval_congr _ (combine_left v _),
        ← Tree.eval_congr _ (combine_right hd v _)]
      show o.member (value v l) (value (fun _ => false) r) = true
      rw [hv, value_false fun _ _ => rfl]
      cases o <;> first | rfl | exact absurd rfl ho

/-- Every chain of distinct queries has contents of the kind `Truthy` asks for. -/
lemma exists_truthy {c : Chain OracleSetOp κ} (h : c.queries.Nodup) : ∃ v, Truthy v c := by
  induction c with
  | query q => exact ⟨fun _ => true, rfl⟩
  | paren inner ih => exact ih h
  | opQuery c o q ih =>
    obtain ⟨hc, -, hd⟩ := List.nodup_append'.mp h
    obtain ⟨v, hv⟩ := ih hc
    refine ⟨combine c.queries v fun _ => o != .minus, hv.congr (combine_left v _), ?_⟩
    exact (combine_right hd v (fun _ => o != .minus) q (List.mem_singleton.mpr rfl)).symm
  | opParen c o inner ih ihi =>
    obtain ⟨hc, hi, hd⟩ := List.nodup_append'.mp h
    obtain ⟨v, hv⟩ := ih hc
    by_cases ho : o = .minus
    · refine ⟨combine c.queries v fun _ => false, hv.congr (combine_left v _), ?_⟩
      rw [if_pos ho]
      exact fun q hq => (combine_right hd v (fun _ => false) q hq).symm
    · obtain ⟨w, hw⟩ := ihi hi
      refine ⟨combine c.queries v w, hv.congr (combine_left v w), ?_⟩
      rw [if_neg ho]
      exact hw.congr (combine_right hd v w)

/-! ### Where the readings part -/

/-- Where the contents of a tree and of what stands behind it are put together. -/
lemma value_combine_left {qs : List κ} (v w : κ → Bool) {t : Tree OracleSetOp κ}
    (h : t.queries = qs) : value (combine qs v w) t = value v t :=
  (Tree.eval_congr _ (h ▸ combine_left v w)).symm

/-- The same for what stands behind it. -/
lemma value_combine_right {qs : List κ} (v w : κ → Bool) {t : Tree OracleSetOp κ}
    (h : qs.Disjoint t.queries) : value (combine qs v w) t = value w t :=
  (Tree.eval_congr _ (combine_right h v w)).symm

variable {c : Chain OracleSetOp κ} {o : OracleSetOp} {x x' : Tree OracleSetOp κ}

/-- Where the two readings of a chain differ, they still do with one more operand, of contents
that leave the rest alone. -/
lemma differ_of_left (hx : c.queries.Disjoint x.queries) (hx' : c.queries.Disjoint x'.queries)
    {v w : κ → Bool} (hv : value v (c.read bindingOf) ≠ value v (c.read fun _ => 0))
    (hw : value w x = neutral o) (hw' : value w x' = neutral o) :
    ∃ v, value v ((c.read bindingOf).attach bindingOf o x) ≠
      value v ((c.read fun _ => 0).attach (fun _ => 0) o x') := by
  refine ⟨combine c.queries v w, ?_⟩
  rw [value_attach_neutral bindingOf, value_attach_neutral fun _ => 0,
    value_combine_left v w (Chain.queries_read _ c), value_combine_left v w (Chain.queries_read _ c)]
  · exact hv
  · rw [value_combine_right v w hx', hw']
  · rw [value_combine_right v w hx, hw]

/-- **An `INTERSECT` behind another operator parts the readings**: for PostgreSQL it takes only
the last operand of that operator, so a row of what stands before survives. -/
lemma differ_of_late_intersect (hc : c.queries.Nodup) (hx : c.queries.Disjoint x.queries)
    (hx' : c.queries.Disjoint x'.queries) {o' : OracleSetOp} (h : o' ∈ c.ops)
    (ho' : o' ≠ .intersect) :
    ∃ v, value v ((c.read bindingOf).attach bindingOf .intersect x) ≠
      value v ((c.read fun _ => 0).attach (fun _ => 0) .intersect x') := by
  obtain ⟨l, o'', r, hread, ho''⟩ := exists_top h ho'
  have hqs : l.queries ++ r.queries = c.queries := by
    rw [← Chain.queries_read bindingOf c, hread]
    rfl
  rw [← hqs] at hc hx hx'
  obtain ⟨hl, -, hlr⟩ := List.nodup_append'.mp hc
  obtain ⟨v, hv⟩ := exists_value_true hl
  refine ⟨combine l.queries v fun _ => false, ?_⟩
  have hleft : value (combine l.queries v fun _ => false) l = true := by
    rw [value_combine_left v _ rfl, hv]
  have hright : value (combine l.queries v fun _ => false)
      (r.attach bindingOf .intersect x) = false := by
    rw [value_combine_right v _ _, value_false fun _ _ => rfl]
    rw [Tree.queries_attach]
    exact List.disjoint_append_right.mpr ⟨hlr, (List.disjoint_append_left.mp hx).1⟩
  have hlast : value (combine l.queries v fun _ => false) x' = false := by
    rw [value_combine_right v _ (List.disjoint_append_left.mp hx').1, value_false fun _ _ => rfl]
  have hpostgres : value (combine l.queries v fun _ => false)
      ((c.read bindingOf).attach bindingOf .intersect x) = true := by
    rw [hread]
    show value _ (if _ then _ else _) = true
    rw [if_pos (by revert ho''; cases o'' <;> decide)]
    show o''.member (value _ l) (value _ _) = true
    rw [hleft, hright]
    cases o'' <;> first | rfl | exact absurd rfl ho''
  rw [hpostgres, Tree.attach_of_le (fun _ => 0) (fun _ => Nat.le_refl 0)]
  show true ≠ (value _ _ && value _ x')
  rw [hlast, Bool.and_false]
  decide

/-- Where the two readings of an operand differ, those of the chain it ends do, when they agree on
what stands before and the operator goes on top. -/
lemma differ_of_right (hc : c.queries.Nodup) (hx : c.queries.Disjoint x.queries)
    (hx' : c.queries.Disjoint x'.queries) (hdesc : c.Descending bindingOf)
    (ho : ∀ o' ∈ c.ops, bindingOf o ≤ bindingOf o') {w : κ → Bool} (hw : value w x ≠ value w x') :
    ∃ v, value v ((c.read bindingOf).attach bindingOf o x) ≠
      value v ((c.read fun _ => 0).attach (fun _ => 0) o x') := by
  -- the row is put on the left exactly when the operator then shows its right operand
  obtain ⟨v, hv⟩ : ∃ v, value v (c.read fun _ => 0) = (neutral o || o == .minus) := by
    by_cases h : (neutral o || o == .minus) = true
    · obtain ⟨v, hv⟩ := exists_truthy hc
      exact ⟨v, by rw [hv.value_read fun _ _ _ => Nat.le_refl 0, h]⟩
    · exact ⟨fun _ => false, by rw [value_false fun _ _ => rfl, Bool.eq_false_of_not_eq_true h]⟩
  refine ⟨combine c.queries v w, ?_⟩
  rw [Chain.attach_read_of_le bindingOf ho, Chain.read_eq_of_descending hdesc,
    Tree.attach_of_le (fun _ => 0) (fun _ => Nat.le_refl 0)]
  show o.member (value _ _) (value _ x) ≠ o.member (value _ _) (value _ x')
  rw [value_combine_left v w (Chain.queries_read _ c), value_combine_right v w hx,
    value_combine_right v w hx', hv]
  revert hw
  cases o <;> cases value w x <;> cases value w x' <;> decide

/-- A chain of distinct queries that is not descending has contents for which one row is in one
reading and not in the other. -/
theorem exists_differ {c : Chain OracleSetOp κ} (hnodup : c.queries.Nodup)
    (h : ¬c.Descending bindingOf) :
    ∃ v, value v (c.read bindingOf) ≠ value v (c.read fun _ => 0) := by
  induction c with
  | query q => exact absurd trivial h
  | paren inner ih => exact ih hnodup h
  | opQuery c o q ih =>
    obtain ⟨hc, -, hq⟩ := List.nodup_append'.mp hnodup
    by_cases hdesc : c.Descending bindingOf
    · have hlate : ¬∀ o' ∈ c.ops, bindingOf o ≤ bindingOf o' := fun hops => h ⟨hdesc, hops⟩
      push Not at hlate
      obtain ⟨o', hmem, hlt⟩ := hlate
      obtain ⟨rfl, ho'⟩ := bindingOf_lt (Nat.not_le.mpr hlt)
      exact differ_of_late_intersect hc hq hq hmem ho'
    · obtain ⟨v, hv⟩ := ih hc hdesc
      exact differ_of_left hq hq hv (w := fun _ => neutral o) rfl rfl
  | opParen c o inner ih ihi =>
    obtain ⟨hc, hinner, hq⟩ := List.nodup_append'.mp hnodup
    have hx : ∀ prec, c.queries.Disjoint (Tree.nested (inner.read prec)).queries := fun prec => by
      show c.queries.Disjoint (inner.read prec).queries
      rw [Chain.queries_read]
      exact hq
    by_cases hdesc : c.Descending bindingOf
    · by_cases hops : ∀ o' ∈ c.ops, bindingOf o ≤ bindingOf o'
      · obtain ⟨w, hw⟩ := ihi hinner fun hi => h ⟨hdesc, hops, hi⟩
        exact differ_of_right hc (hx _) (hx _) hdesc hops hw
      · push Not at hops
        obtain ⟨o', hmem, hlt⟩ := hops
        obtain ⟨rfl, ho'⟩ := bindingOf_lt (Nat.not_le.mpr hlt)
        exact differ_of_late_intersect hc (hx _) (hx _) hmem ho'
    · obtain ⟨v, hv⟩ := ih hc hdesc
      by_cases ho : o = .intersect
      · obtain ⟨w, hw⟩ := exists_truthy hinner
        refine differ_of_left (hx _) (hx _) hv (w := w) ?_ ?_
        · rw [ho]
          exact hw.value_read (fun _ => bindingOf_le)
        · rw [ho]
          exact hw.value_read fun _ _ _ => Nat.le_refl 0
      · have hneutral : neutral o = false := by
          cases o <;> first | rfl | exact absurd rfl ho
        refine differ_of_left (hx _) (hx _) hv (w := fun _ => false) ?_ ?_
        · rw [hneutral, value_false fun _ _ => rfl]
        · rw [hneutral, value_false fun _ _ => rfl]

end Combine

/-! ### The rows of the two databases -/

/-- **The chain keeps its rows exactly when `INTERSECT` comes only after `INTERSECT`s**: at every
level of parentheses no operator may bind tighter, for PostgreSQL, than one before it.  Such a
chain keeps its rows whatever its queries are; any other chain of distinct queries loses or gains
rows for some contents. -/
theorem postgresRows_eq_iff [DecidableEq ρ] [Inhabited ρ] {parserPrec : PgSetOp → ℕ}
    {rowLimit : κ → Option Expr} {c : Chain OracleSetOp κ} {out : Chain PgSetOp κ}
    (h : translateChain parserPrec rowLimit c = .ok out) :
    (c.Descending bindingOf → ∀ rows : κ → Multiset ρ, postgresRows rows out = oracleRows rows c) ∧
      (c.queries.Nodup →
        (∀ rows : κ → Multiset ρ, postgresRows rows out = oracleRows rows c) →
        c.Descending bindingOf) := by
  rw [translateChain_ok h]
  refine ⟨fun hdesc rows => ?_, fun hnodup hrows => ?_⟩
  · rw [postgresRows_map, oracleRows, Chain.read_eq_of_descending hdesc]
  · classical
    by_contra hdesc
    obtain ⟨v, hv⟩ := exists_differ hnodup hdesc
    let rows : κ → Multiset ρ := fun q => if v q then {default} else 0
    have hheld : (fun q => decide (default ∈ rows q)) = v := by
      funext q
      by_cases hq : v q = true <;> simp [rows, hq]
    have hvalue : ∀ t : Tree OracleSetOp κ,
        decide (default ∈ t.eval OracleSetOp.apply rows) = value v t := fun t => by
      rw [mem_eval, hheld]
    apply hv
    rw [← hvalue, ← hvalue]
    have hsame := hrows rows
    rw [postgresRows_map, oracleRows] at hsame
    rw [hsame]

/-- A chain that keeps its rows: `q₀ INTERSECT q₁ UNION (q₂ MINUS q₃) MINUS q₄`. -/
theorem intersectFirst_keeps_rows :
    ∃ out : Chain PgSetOp ℕ,
      translateChain PgSetOp.precedence (fun _ => none)
        (.opQuery (.opParen (.opQuery (.query 0) .intersect 1) .union
          (.opQuery (.query 2) .minus 3)) .minus 4) = .ok out ∧
      ∀ rows : ℕ → Multiset ℕ, postgresRows rows out = oracleRows rows
        (.opQuery (.opParen (.opQuery (.query 0) .intersect 1) .union
          (.opQuery (.query 2) .minus 3)) .minus 4) :=
  ⟨_, rfl, (@postgresRows_eq_iff ℕ ℕ _ _ PgSetOp.precedence (fun _ => none) _ _ rfl).1
    (by decide)⟩

/-- `q₀ UNION q₁ INTERSECT q₂` with one row in `q₀` only: Oracle intersects the union with the
empty `q₂`, PostgreSQL adds the empty intersection to `q₀`. -/
theorem unionIntersect_gains_row :
    ∃ out : Chain PgSetOp ℕ,
      translateChain PgSetOp.precedence (fun _ => none)
        (.opQuery (.opQuery (.query 0) .union 1) .intersect 2) = .ok out ∧
      postgresRows (fun q => if q = 0 then {7} else (0 : Multiset ℕ)) out = {7} ∧
      oracleRows (fun q => if q = 0 then {7} else (0 : Multiset ℕ))
        (.opQuery (.opQuery (.query 0) .union 1) .intersect 2) = 0 :=
  ⟨_, rfl, by decide, by decide⟩

end DbSaci.Translate
