import Mathlib.Data.List.Basic

set_option relaxedAutoImplicit false
set_option autoImplicit false

/-!
# Transducers

A loop over a text with a state. Each step reads a character and some of those behind it, and writes
a text.

## Main definitions

* `Transducer` — what a step does.
* `Transducer.run` — what is written for a text.

## Main results

* `Transducer.run_cons` — the first step, and those behind it.
* `Transducer.run_append` — a step that reads a whole text.
-/

/-- What a step does at a character: what it writes, how many characters behind it belong to it, and
the state behind them. -/
def Transducer (σ α β : Type) := σ → α → List α → List β × ℕ × σ

namespace Transducer

variable {σ α β : Type} (m : Transducer σ α β)

/-- What is written for a text, in so many steps at most. -/
def runFrom : ℕ → σ → List α → List β
  | 0, _, _ => []
  | _ + 1, _, [] => []
  | n + 1, st, c :: s => (m st c s).1 ++ runFrom n (m st c s).2.2 (s.drop (m st c s).2.1)

/-- What is written for a text. -/
def run (st : σ) (s : List α) : List β := m.runFrom s.length st s

@[simp]
lemma runFrom_nil (n : ℕ) (st : σ) : m.runFrom n st [] = [] := by
  cases n <;> rfl

@[simp]
lemma run_nil (st : σ) : m.run st [] = [] := rfl

/-- As many steps as there are characters are enough. -/
lemma runFrom_eq_run {n : ℕ} {st : σ} {s : List α} (h : s.length ≤ n) :
    m.runFrom n st s = m.run st s := by
  induction hk : s.length using Nat.strongRecOn generalizing n st s with
  | ind k ih =>
    cases s with
    | nil => rw [runFrom_nil, run_nil]
    | cons c s =>
      obtain ⟨n, rfl⟩ := Nat.exists_eq_add_of_le' (Nat.one_le_of_lt h)
      rw [List.length_cons] at h hk
      have hlen : (s.drop (m st c s).2.1).length ≤ s.length := by
        rw [List.length_drop]
        omega
      rw [run, List.length_cons, runFrom, runFrom, ih _ (by omega) (by omega) rfl,
        ih _ (by omega) hlen rfl]

/-- **The first step, and those behind it.** -/
theorem run_cons (st : σ) (c : α) (s : List α) :
    m.run st (c :: s) = (m st c s).1 ++ m.run (m st c s).2.2 (s.drop (m st c s).2.1) := by
  rw [run, List.length_cons, runFrom, runFrom_eq_run]
  rw [List.length_drop]
  omega

/-- **A step that reads a whole text.** -/
theorem run_append {st st' : σ} {c : α} {x y : List α} {w : List β}
    (h : m st c (x ++ y) = (w, x.length, st')) : m.run st (c :: (x ++ y)) = w ++ m.run st' y := by
  rw [run_cons, h, List.drop_left]

end Transducer
