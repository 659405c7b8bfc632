import DbSaci.Library.Numbering
import DbSaci.Library.Truth
import Mathlib.Data.List.Sort

set_option relaxedAutoImplicit false
set_option autoImplicit false

/-!
# `SELECT` blocks

What a single `SELECT` block makes of the rows its `WHERE` clause has let through: grouping and
aggregation, `DISTINCT` and `ORDER BY`, in that order. The columns themselves are not looked at; a
`Meaning` says what the parts of the block compute from a row. Rows come in the order of the
table, and `DISTINCT` and `GROUP BY` keep the order of first occurrence.

## Main definitions

* `Block` — the clauses of a block that decide how rows are turned into results.
* `Meaning` — what the expressions of a block compute.
* `Block.select` — the results of a block.

## Main results

* `Block.select_nil`, `Block.select_singleton` — the results of no row and of one row.
-/

namespace DbSaci.Sql

/-- Whether the `SELECT` list has aggregates, and whether there is a `GROUP BY`. -/
inductive Shape
  | plain
  | aggregate
  | grouped
  deriving DecidableEq, Repr

/-- The clauses of a block. `qualified` says that the `SELECT` list or the `ORDER BY` names a
column by its table. The columns of a `GROUP BY` do not determine those of the table. -/
structure Block where
  shape : Shape
  distinct : Bool
  ordered : Bool
  qualified : Bool
  deriving DecidableEq, Repr

/-- What the parts of a block compute: the `SELECT` list of a row and of a group of rows, the
grouping key, and the two orders an `ORDER BY` can ask for. -/
structure Meaning (α β κ : Type) where
  project : α → β
  aggregate : List α → β
  key : α → κ
  rowLe : α → α → Bool
  outLe : β → β → Bool

/-- The groups of a `GROUP BY`, each with its rows. -/
def groups {α κ : Type} [DecidableEq κ] (key : α → κ) (rows : List α) : List (List α) :=
  (eraseRepeats (rows.map key)).map fun k => rows.filter fun r => key r = k

/-- Sort if there is an `ORDER BY`. -/
def sorted {γ : Type} (ordered : Bool) (le : γ → γ → Bool) (xs : List γ) : List γ :=
  if ordered then xs.mergeSort le else xs

@[simp] lemma sorted_nil {γ : Type} (ordered : Bool) (le : γ → γ → Bool) :
    sorted ordered le [] = [] := by
  simp [sorted]

@[simp] lemma sorted_singleton {γ : Type} (ordered : Bool) (le : γ → γ → Bool) (x : γ) :
    sorted ordered le [x] = [x] := by
  simp [sorted]

@[simp] lemma length_sorted {γ : Type} (ordered : Bool) (le : γ → γ → Bool) (xs : List γ) :
    (sorted ordered le xs).length = xs.length := by
  unfold sorted
  split
  · exact List.length_mergeSort xs
  · rfl

namespace Block

variable {α β κ : Type} [DecidableEq β] [DecidableEq κ]

/-- The results before `DISTINCT` and `ORDER BY`. -/
def outputs (shape : Shape) (m : Meaning α β κ) (rows : List α) : List β :=
  match shape with
  | .plain => rows.map m.project
  | .aggregate => [m.aggregate rows]
  | .grouped => (groups m.key rows).map m.aggregate

/-- The results of a block. The `ORDER BY` of a plain block may name any column of the row; that
of the others names results. -/
def select (b : Block) (m : Meaning α β κ) (rows : List α) : List β :=
  if b.shape = .plain ∧ b.distinct = false then
    (sorted b.ordered m.rowLe rows).map m.project
  else
    sorted b.ordered m.outLe
      (if b.distinct then eraseRepeats (outputs b.shape m rows) else outputs b.shape m rows)

section Select

variable (b : Block) (m : Meaning α β κ)

/-- No row gives no result, but an aggregate without `GROUP BY` gives one. -/
lemma select_nil : b.select m [] = if b.shape = .aggregate then [m.aggregate []] else [] := by
  obtain ⟨shape, distinct, ordered, qualified⟩ := b
  cases shape <;> cases distinct <;> simp [select, outputs, groups]

/-- One row gives one result. -/
lemma select_singleton (r : α) :
    b.select m [r] = [if b.shape = .plain then m.project r else m.aggregate [r]] := by
  obtain ⟨shape, distinct, ordered, qualified⟩ := b
  cases shape <;> cases distinct <;> simp [select, outputs, groups]

/-- An aggregate without `GROUP BY` gives one result. -/
lemma select_aggregate (h : b.shape = .aggregate) (rows : List α) :
    b.select m rows = [m.aggregate rows] := by
  obtain ⟨shape, distinct, ordered, qualified⟩ := b
  obtain rfl : shape = .aggregate := h
  cases distinct <;> simp [select, outputs]

end Select

end Block

end DbSaci.Sql
