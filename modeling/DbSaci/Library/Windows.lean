import Mathlib.Data.List.Dedup
import Mathlib.Data.List.Forall2

set_option relaxedAutoImplicit false
set_option autoImplicit false

/-!
# Rows, groups and windows

What a query computes of a list of rows: a value of the row that stands some places in front, and
one value for each group.

## Main definitions

* `preceding` — the row that stands so many places in front of a row.
* `lag` — the value of that row, or a default if there is none.
* `groups` — the rows with the same key.
* `Picks` — one row from each group.

## Main results

* `lag_or_iff` — when a default in place of `NULL` is a default in place of no row.
* `take_one_iff`, `map_const_iff` — when one value for each row is one value.
-/

namespace Windows

variable {ρ κ V : Type}

/-- The row that stands `n` places in front of a row. -/
def preceding (rows : List ρ) (n i : ℕ) : Option ρ := if n ≤ i then rows[i - n]? else none

/-- The value of a row in front, and a default where there is no such row. -/
def lag (x : ρ → Option V) (d : Option V) (row : Option ρ) : Option V := row.elim d x

/-- **A default in place of `NULL`** is a default in place of no row if and only if the row has a
value, or there is no default, either. -/
theorem lag_or_iff (x : ρ → Option V) (d : Option V) (row : Option ρ) :
    (lag x none row).or d = lag x d row ↔ ∀ r ∈ row, x r = none → d = none := by
  cases row with
  | none => simp [lag]
  | some r =>
    rw [lag, lag, Option.elim_some, Option.elim_some]
    cases hx : x r with
    | none => simp [hx]
    | some v => simp [hx]

/-- The rows with the same key, for each key. -/
def groups [DecidableEq κ] (key : ρ → κ) (rows : List ρ) : List (List ρ) :=
  (rows.map key).dedup.map fun k => rows.filter fun r => key r = k

/-- One row from each group; a group without rows has the row of `NULL`s. -/
def Picks (null : ρ) (gs : List (List ρ)) (reps : List ρ) : Prop :=
  List.Forall₂ (fun g r => r ∈ g ∨ g = [] ∧ r = null) gs reps

lemma exists_picks (null : ρ) (gs : List (List ρ)) : ∃ reps, Picks null gs reps := by
  induction gs with
  | nil => exact ⟨[], List.Forall₂.nil⟩
  | cons g gs ih =>
    obtain ⟨reps, hreps⟩ := ih
    cases g with
    | nil => exact ⟨null :: reps, List.Forall₂.cons (Or.inr ⟨rfl, rfl⟩) hreps⟩
    | cons r g => exact ⟨r :: reps, List.Forall₂.cons (Or.inl List.mem_cons_self) hreps⟩

/-- One value for each row, and then one row, is one value if there is a row. -/
lemma take_one_iff (rows : List ρ) (v : V) : (rows.map fun _ => v).take 1 = [v] ↔ rows ≠ [] := by
  cases rows with
  | nil => simp
  | cons r rows => simp

/-- One value for each row is one value if there is one row. -/
lemma map_const_iff (rows : List ρ) (v : V) : (rows.map fun _ => v) = [v] ↔ rows.length = 1 := by
  constructor
  · intro h
    have hlen := congrArg List.length h
    rwa [List.length_map, List.length_singleton] at hlen
  · intro h
    obtain ⟨r, rfl⟩ := List.length_eq_one_iff.1 h
    rfl

end Windows
