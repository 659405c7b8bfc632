import Mathlib.Data.List.Basic

set_option relaxedAutoImplicit false
set_option autoImplicit false

/-!
# Marking scanners

A loop over a text that keeps or leaves out what it reads. It has a state, and each step takes a
character and some of those behind it.

## Main definitions

* `Marker` — what a step does.
* `Marker.mark` — each character of a text, and if it is kept.
* `kept` — the characters that are kept.

## Main results

* `Marker.mark_cons` — the first step, and those behind it.
* `Marker.mark_append` — a step that takes a whole text.
* `Marker.map_fst_mark` — each character is marked once.
-/

/-- What a loop does at a character: how many characters behind it belong to the same step, if they
are kept, and the state behind them. -/
def Marker (σ α : Type) := σ → α → List α → ℕ × Bool × σ

/-- The characters that are kept. -/
def kept {α : Type} (marks : List (α × Bool)) : List α :=
  (marks.filter Prod.snd).map Prod.fst

namespace Marker

variable {σ α : Type} (m : Marker σ α)

/-- The marks of a text, in so many steps at most. -/
def markFrom : ℕ → σ → List α → List (α × Bool)
  | 0, _, _ => []
  | _ + 1, _, [] => []
  | n + 1, st, c :: s =>
    ((c :: s.take (m st c s).1).map fun d => (d, (m st c s).2.1)) ++
      markFrom n (m st c s).2.2 (s.drop (m st c s).1)

/-- Each character of a text, and if it is kept. -/
def mark (st : σ) (s : List α) : List (α × Bool) := m.markFrom s.length st s

@[simp]
lemma markFrom_nil (n : ℕ) (st : σ) : m.markFrom n st [] = [] := by
  cases n <;> rfl

@[simp]
lemma mark_nil (st : σ) : m.mark st [] = [] := rfl

/-- As many steps as there are characters are enough. -/
lemma markFrom_eq_mark {n : ℕ} {st : σ} {s : List α} (h : s.length ≤ n) :
    m.markFrom n st s = m.mark st s := by
  induction hk : s.length using Nat.strongRecOn generalizing n st s with
  | ind k ih =>
    cases s with
    | nil => rw [markFrom_nil, mark_nil]
    | cons c s =>
      obtain ⟨n, rfl⟩ := Nat.exists_eq_add_of_le' (Nat.one_le_of_lt h)
      rw [List.length_cons] at h hk
      have hlen : (s.drop (m st c s).1).length ≤ s.length := by
        rw [List.length_drop]
        omega
      rw [mark, List.length_cons, markFrom, markFrom, ih _ (by omega) (by omega) rfl,
        ih _ (by omega) hlen rfl]

/-- **The first step, and those behind it.** -/
theorem mark_cons (st : σ) (c : α) (s : List α) :
    m.mark st (c :: s) = ((c :: s.take (m st c s).1).map fun d => (d, (m st c s).2.1)) ++
      m.mark (m st c s).2.2 (s.drop (m st c s).1) := by
  rw [mark, List.length_cons, markFrom, markFrom_eq_mark]
  rw [List.length_drop]
  omega

/-- **A step that takes a whole text.** -/
theorem mark_append {st st' : σ} {c : α} {x y : List α} {b : Bool}
    (h : m st c (x ++ y) = (x.length, b, st')) :
    m.mark st (c :: (x ++ y)) = ((c :: x).map fun d => (d, b)) ++ m.mark st' y := by
  rw [mark_cons, h, List.take_left, List.drop_left]

/-- **Each character is marked once.** -/
theorem map_fst_mark (st : σ) (s : List α) : (m.mark st s).map Prod.fst = s := by
  induction hk : s.length using Nat.strongRecOn generalizing st s with
  | ind k ih =>
    cases s with
    | nil => rfl
    | cons c s =>
      rw [List.length_cons] at hk
      have hlen : (s.drop (m st c s).1).length < k := by
        rw [List.length_drop]
        omega
      rw [mark_cons, List.map_append, ih _ hlen _ _ rfl, List.map_map]
      have hid : (Prod.fst ∘ fun d : α => (d, (m st c s).2.1)) = id := rfl
      rw [hid, List.map_id, List.cons_append, List.take_append_drop]

end Marker

@[simp]
lemma kept_append {α : Type} (x y : List (α × Bool)) : kept (x ++ y) = kept x ++ kept y := by
  rw [kept, kept, kept, List.filter_append, List.map_append]

@[simp]
lemma kept_map_true {α : Type} (x : List α) : kept (x.map fun d => (d, true)) = x := by
  induction x with
  | nil => rfl
  | cons c x ih => exact congrArg (c :: ·) ih

@[simp]
lemma kept_map_false {α : Type} (x : List α) : kept (x.map fun d => (d, false)) = [] := by
  induction x with
  | nil => rfl
  | cons c x ih => exact ih
