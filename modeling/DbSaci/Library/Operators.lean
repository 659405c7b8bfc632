import Mathlib.Order.Basic

set_option relaxedAutoImplicit false
set_option autoImplicit false

/-!
# Chains of infix operators and their readings

A text `q₁ o₁ q₂ o₂ … qₙ` of operands joined by left-associative infix operators, some of the
operands being such texts again in parentheses.  What it means depends on how tightly each
operator binds: a reader with its own precedences turns the flat text into a tree, and a printer
that puts parentheses only where the text had them turns the tree back.

## Main definitions

* `Chain`, `Tree` — the flat text, and the tree a reader makes of it.
* `Tree.attach`, `Chain.read` — one step of an operator-precedence reader, and the whole reading.
* `Tree.print` — the flat text of a tree.
* `Tree.eval` — the value of a tree, given the values of the operands.
* `Chain.Descending` — no operator binds tighter than one to its left at the same level.

## Main results

* `Chain.print_read` — printing what was read gives the text back, whatever the precedences.
* `Chain.read_eq_of_descending` — a descending chain is read from left to right.
* `Tree.eval_congr` — the value depends on the operands that occur only.
-/

namespace DbSaci.Library

variable {ω ω' κ α : Type}

/-- Operands of type `κ` and chains in parentheses, joined by operators of type `ω`. -/
inductive Chain (ω κ : Type)
  | query (q : κ)
  | paren (inner : Chain ω κ)
  | opQuery (c : Chain ω κ) (o : ω) (q : κ)
  | opParen (c : Chain ω κ) (o : ω) (inner : Chain ω κ)
  deriving Repr, DecidableEq

/-- The tree a reader makes of a chain; `nested` keeps the parentheses of the text. -/
inductive Tree (ω κ : Type)
  | query (q : κ)
  | nested (t : Tree ω κ)
  | node (l : Tree ω κ) (o : ω) (r : Tree ω κ)
  deriving Repr, DecidableEq

/-! ### Trees -/

namespace Tree

/-- One more operator and its right operand at the end of what has been read: the operator takes
the right operand of the last one away from it when it binds tighter. -/
def attach (prec : ω → ℕ) : Tree ω κ → ω → Tree ω κ → Tree ω κ
  | node l o' r, o, x =>
    if prec o' < prec o then node l o' (attach prec r o x) else node (node l o' r) o x
  | t, o, x => node t o x

/-- The operands of a tree, from left to right. -/
def queries : Tree ω κ → List κ
  | query q => [q]
  | nested t => t.queries
  | node l _ r => l.queries ++ r.queries

/-- The value of a tree when `apply` says what the operators compute and `v` what the operands
hold. -/
def eval (apply : ω → α → α → α) (v : κ → α) : Tree ω κ → α
  | query q => v q
  | nested t => t.eval apply v
  | node l o r => apply o (l.eval apply v) (r.eval apply v)

/-- The same tree with other operators. -/
def map (f : ω → ω') : Tree ω κ → Tree ω' κ
  | query q => query q
  | nested t => nested (t.map f)
  | node l o r => node (l.map f) (f o) (r.map f)

variable (prec : ω → ℕ)

/-- An operator that binds no tighter than any other goes on top. -/
lemma attach_of_le {o : ω} (h : ∀ o', prec o ≤ prec o') (t x : Tree ω κ) :
    attach prec t o x = node t o x := by
  cases t with
  | query q => rfl
  | nested t => rfl
  | node l o' r =>
    show (if prec o' < prec o then _ else _) = _
    rw [if_neg (Nat.not_lt.mpr (h o'))]

/-- Attaching keeps the operands and puts the new ones behind. -/
lemma queries_attach (t x : Tree ω κ) (o : ω) :
    (attach prec t o x).queries = t.queries ++ x.queries := by
  induction t with
  | query q => rfl
  | nested t => rfl
  | node l o' r _ ih =>
    simp only [attach]
    split
    · simp only [queries, ih, List.append_assoc]
    · rfl

/-- The value of a tree depends on the values of its own operands only. -/
theorem eval_congr (apply : ω → α → α → α) {v w : κ → α} {t : Tree ω κ}
    (h : ∀ q ∈ t.queries, v q = w q) : t.eval apply v = t.eval apply w := by
  induction t with
  | query q => exact h q (List.mem_singleton.mpr rfl)
  | nested t ih => exact ih h
  | node l o r ihl ihr =>
    show apply o _ _ = apply o _ _
    rw [ihl fun q hq => h q (List.mem_append_left _ hq),
      ihr fun q hq => h q (List.mem_append_right _ hq)]

/-- Renaming the operators and computing with the renamed ones is computing with the renaming. -/
lemma eval_map (f : ω → ω') (apply : ω' → α → α → α) (v : κ → α) (t : Tree ω κ) :
    (t.map f).eval apply v = t.eval (fun o => apply (f o)) v := by
  induction t with
  | query q => rfl
  | nested t ih => exact ih
  | node l o r ihl ihr => simp only [map, eval, ihl, ihr]

/-- Renaming the operators commutes with attaching, when the new names bind as the old ones. -/
lemma map_attach (f : ω → ω') (prec' : ω' → ℕ) (t x : Tree ω κ) (o : ω) :
    (attach (fun o => prec' (f o)) t o x).map f = attach prec' (t.map f) (f o) (x.map f) := by
  induction t with
  | query q => rfl
  | nested t => rfl
  | node l o' r _ ih =>
    simp only [attach, map]
    split
    · simp only [map, ih]
    · rfl

end Tree

/-! ### Chains -/

namespace Chain

/-- A chain, an operator, and another chain behind it. -/
def append (c : Chain ω κ) (o : ω) : Chain ω κ → Chain ω κ
  | query q => opQuery c o q
  | paren inner => opParen c o inner
  | opQuery d o' q => opQuery (append c o d) o' q
  | opParen d o' inner => opParen (append c o d) o' inner

/-- Appending chains can be regrouped. -/
lemma append_assoc (c d e : Chain ω κ) (o o' : ω) :
    (c.append o d).append o' e = c.append o (d.append o' e) := by
  induction e with
  | query q => rfl
  | paren inner => rfl
  | opQuery e o'' q ih => simp only [append, ih]
  | opParen e o'' inner ih => simp only [append, ih]

/-- The same chain with other operators. -/
def map (f : ω → ω') : Chain ω κ → Chain ω' κ
  | query q => query q
  | paren inner => paren (inner.map f)
  | opQuery c o q => opQuery (c.map f) (f o) q
  | opParen c o inner => opParen (c.map f) (f o) (inner.map f)

/-- The operators of a chain outside its parentheses. -/
def ops : Chain ω κ → List ω
  | query _ => []
  | paren _ => []
  | opQuery c o _ => c.ops ++ [o]
  | opParen c o _ => c.ops ++ [o]

/-- The operands of a chain, those in parentheses included. -/
def queries : Chain ω κ → List κ
  | query q => [q]
  | paren inner => inner.queries
  | opQuery c _ q => c.queries ++ [q]
  | opParen c _ inner => c.queries ++ inner.queries

/-- The tree that a reader with the given precedences makes of a chain. -/
def read (prec : ω → ℕ) : Chain ω κ → Tree ω κ
  | query q => .query q
  | paren inner => .nested (inner.read prec)
  | opQuery c o q => (c.read prec).attach prec o (.query q)
  | opParen c o inner => (c.read prec).attach prec o (.nested (inner.read prec))

/-- No operator binds tighter than one to its left, at any level of parentheses. -/
def Descending (prec : ω → ℕ) : Chain ω κ → Prop
  | query _ => True
  | paren inner => inner.Descending prec
  | opQuery c o _ => c.Descending prec ∧ ∀ o' ∈ c.ops, prec o ≤ prec o'
  | opParen c o inner =>
    c.Descending prec ∧ (∀ o' ∈ c.ops, prec o ≤ prec o') ∧ inner.Descending prec

/-- Whether a chain is descending can be computed. -/
instance decidableDescending (prec : ω → ℕ) : (c : Chain ω κ) → Decidable (c.Descending prec)
  | query _ => inferInstanceAs (Decidable True)
  | paren inner => decidableDescending prec inner
  | opQuery c o _ =>
    have := decidableDescending prec c
    inferInstanceAs (Decidable (c.Descending prec ∧ ∀ o' ∈ c.ops, prec o ≤ prec o'))
  | opParen c o inner =>
    have := decidableDescending prec c
    have := decidableDescending prec inner
    inferInstanceAs (Decidable
      (c.Descending prec ∧ (∀ o' ∈ c.ops, prec o ≤ prec o') ∧ inner.Descending prec))

variable (prec : ω → ℕ)

/-- Reading keeps the operands in order. -/
lemma queries_read (c : Chain ω κ) : (c.read prec).queries = c.queries := by
  induction c with
  | query q => rfl
  | paren inner ih => exact ih
  | opQuery c o q ih => simp only [read, Tree.queries_attach, ih, Tree.queries, queries]
  | opParen c o inner ih ihi =>
    simp only [read, Tree.queries_attach, ih, Tree.queries, ihi, queries]

/-- Renaming the operators commutes with reading, when the new names bind as the old ones. -/
lemma read_map (f : ω → ω') (prec' : ω' → ℕ) (c : Chain ω κ) :
    (c.map f).read prec' = (c.read fun o => prec' (f o)).map f := by
  induction c with
  | query q => rfl
  | paren inner ih => simp only [map, read, ih, Tree.map]
  | opQuery c o q ih => simp only [map, read, ih, Tree.map_attach, Tree.map]
  | opParen c o inner ih ihi => simp only [map, read, ih, ihi, Tree.map_attach, Tree.map]

end Chain

/-! ### Printing -/

/-- The flat text of a tree: an operator is written between the texts of its operands, and only
`nested` writes parentheses. -/
def Tree.print : Tree ω κ → Chain ω κ
  | .query q => .query q
  | .nested t => .paren t.print
  | .node l o r => l.print.append o r.print

/-- Printing does not see where an operator was attached. -/
lemma Tree.print_attach (prec : ω → ℕ) (t x : Tree ω κ) (o : ω) :
    (attach prec t o x).print = t.print.append o x.print := by
  induction t with
  | query q => rfl
  | nested t => rfl
  | node l o' r _ ih =>
    simp only [attach]
    split
    · simp only [print, ih, Chain.append_assoc]
    · rfl

/-- **A printed reading is the text that was read**: parentheses apart, the tree leaves no trace
of the precedences that built it. -/
theorem Chain.print_read (prec : ω → ℕ) (c : Chain ω κ) : (c.read prec).print = c := by
  induction c with
  | query q => rfl
  | paren inner ih => exact congrArg Chain.paren ih
  | opQuery c o q ih =>
    show (Tree.attach prec _ o _).print = _
    rw [Tree.print_attach, ih]
    rfl
  | opParen c o inner ih ihi =>
    show (Tree.attach prec _ o _).print = _
    rw [Tree.print_attach, ih]
    show c.append o (.paren (Tree.print _)) = _
    rw [ihi]
    rfl

/-! ### Descending chains -/

/-- The operator on top after a step is the new one or the one that was on top. -/
lemma Tree.eq_or_of_attach (prec : ω → ℕ) {t x l r : Tree ω κ} {o o' : ω}
    (h : attach prec t o' x = node l o r) : o = o' ∨ ∃ l' r', t = node l' o r' := by
  cases t with
  | query q =>
    cases h
    exact Or.inl rfl
  | nested t =>
    cases h
    exact Or.inl rfl
  | node l' o'' r' =>
    simp only [attach] at h
    split at h
    · cases h
      exact Or.inr ⟨l, r', rfl⟩
    · cases h
      exact Or.inl rfl

/-- The operator on top of the reading of a chain is one of its operators. -/
lemma Chain.mem_ops_of_read (prec : ω → ℕ) {c : Chain ω κ} {l r : Tree ω κ} {o : ω}
    (h : c.read prec = .node l o r) : o ∈ c.ops := by
  induction c generalizing l r with
  | query q => cases h
  | paren inner => cases h
  | opQuery c o' q ih =>
    rcases Tree.eq_or_of_attach prec h with rfl | ⟨l', r', hc⟩
    · exact List.mem_append_right _ (List.mem_singleton.mpr rfl)
    · exact List.mem_append_left _ (ih hc)
  | opParen c o' inner ih _ =>
    rcases Tree.eq_or_of_attach prec h with rfl | ⟨l', r', hc⟩
    · exact List.mem_append_right _ (List.mem_singleton.mpr rfl)
    · exact List.mem_append_left _ (ih hc)

/-- An operator that binds no tighter than those before it goes on top of what they make. -/
lemma Chain.attach_read_of_le (prec : ω → ℕ) {c : Chain ω κ} {o : ω}
    (h : ∀ o' ∈ c.ops, prec o ≤ prec o') (x : Tree ω κ) :
    (c.read prec).attach prec o x = .node (c.read prec) o x := by
  cases hc : c.read prec with
  | query q => rfl
  | nested t => rfl
  | node l o' r =>
    show (if prec o' < prec o then _ else _) = _
    rw [if_neg (Nat.not_lt.mpr (h o' (mem_ops_of_read prec hc)))]

/-- **A descending chain is read from left to right**, as by a reader for whom all operators bind
alike. -/
theorem Chain.read_eq_of_descending {prec : ω → ℕ} {c : Chain ω κ} (h : c.Descending prec) :
    c.read prec = c.read fun _ => 0 := by
  induction c with
  | query q => rfl
  | paren inner ih => exact congrArg Tree.nested (ih h)
  | opQuery c o q ih =>
    show Tree.attach prec _ o _ = Tree.attach _ _ o _
    rw [attach_read_of_le prec h.2, ih h.1,
      Tree.attach_of_le (fun _ => 0) (fun _ => Nat.le_refl 0)]
  | opParen c o inner ih ihi =>
    show Tree.attach prec _ o (.nested _) = Tree.attach _ _ o (.nested _)
    rw [attach_read_of_le prec h.2.1, ih h.1, ihi h.2.2,
      Tree.attach_of_le (fun _ => 0) (fun _ => Nat.le_refl 0)]

end DbSaci.Library
