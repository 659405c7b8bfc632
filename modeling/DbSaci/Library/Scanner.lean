import Mathlib.Data.List.Basic

set_option relaxedAutoImplicit false
set_option autoImplicit false

/-!
# Scanners

A loop over a text that at each place reads a token and goes on behind it.

## Main definitions

* `scan` — the tokens of a text, given how one is read.
* `cutting` — tokens that are pieces of the text.
* `Parted` — no token goes over from a text to the one behind it.

## Main results

* `scan_cons` — the first token, and those behind it.
* `scan_induction` — what holds of a text if it holds of each shorter one.
* `parted_cons` — the first token is the same, and the rest is parted.
* `scan_append_eq_iff` — what the tokens of a text are followed by.
-/

section Scan

variable {α τ : Type}

/-- The tokens of a text, in so many steps at most. -/
def scanFrom (next : α → List α → τ × ℕ) : ℕ → List α → List τ
  | 0, _ => []
  | _ + 1, [] => []
  | n + 1, c :: s => (next c s).1 :: scanFrom next n (s.drop (next c s).2)

/-- The tokens of a text. `next` has the token at a character, and how much of the text behind that
character is part of it. -/
def scan (next : α → List α → τ × ℕ) (s : List α) : List τ := scanFrom next s.length s

/-- **What holds of a text if it holds of each shorter one.** -/
theorem scan_induction {motive : List α → Prop} (nil : motive [])
    (cons : ∀ c s, (∀ n, motive (s.drop n)) → motive (c :: s)) (s : List α) : motive s := by
  induction hn : s.length using Nat.strongRecOn generalizing s with
  | ind n ih =>
    cases s with
    | nil => exact nil
    | cons c s =>
      refine cons c s fun k => ih _ ?_ _ rfl
      rw [List.length_cons] at hn
      rw [List.length_drop]
      omega

variable (next : α → List α → τ × ℕ)

@[simp]
lemma scanFrom_nil (n : ℕ) : scanFrom next n [] = [] := by
  cases n <;> rfl

@[simp]
lemma scan_nil : scan next [] = [] := rfl

/-- As many steps as there are characters are enough. -/
lemma scanFrom_eq_scan {n : ℕ} {s : List α} (h : s.length ≤ n) :
    scanFrom next n s = scan next s := by
  induction s using scan_induction generalizing n with
  | nil => rw [scanFrom_nil, scan_nil]
  | cons c s ih =>
    obtain ⟨n, rfl⟩ := Nat.exists_eq_add_of_le' (Nat.one_le_of_lt h)
    rw [List.length_cons] at h
    have hlen : (s.drop (next c s).2).length ≤ s.length := List.length_drop ▸ Nat.sub_le _ _
    rw [scan, List.length_cons, scanFrom, scanFrom, ih _ (by omega), ih _ hlen]

/-- **The first token, and those behind it.** -/
theorem scan_cons (c : α) (s : List α) :
    scan next (c :: s) = (next c s).1 :: scan next (s.drop (next c s).2) := by
  rw [scan, List.length_cons, scanFrom,
    scanFrom_eq_scan next (List.length_drop ▸ Nat.sub_le _ _)]

end Scan

section Cut

variable {α κ : Type} (cut : α → List α → κ × ℕ)

/-- A token is a piece of the text. `cut` has what it is, and how far it goes. -/
def cutting (c : α) (s : List α) : (κ × List α) × ℕ :=
  (((cut c s).1, c :: s.take (cut c s).2), (cut c s).2)

/-- No token starts in a text and ends in the one behind it. -/
def Parted (x y : List α) : Prop :=
  scan (cutting cut) (x ++ y) = scan (cutting cut) x ++ scan (cutting cut) y

@[simp]
lemma parted_nil (y : List α) : Parted cut [] y := rfl

variable {cut}

section Length

variable (hle : ∀ c s, (cut c s).2 ≤ s.length)

include hle

/-- The text of a token says how far it goes. -/
lemma cutting_append_iff (c : α) (s y : List α) :
    (cutting cut c (s ++ y)).1 = (cutting cut c s).1 ↔ cut c (s ++ y) = cut c s := by
  constructor
  · intro h
    obtain ⟨hkind, htext⟩ := Prod.mk.inj h
    refine Prod.ext hkind ?_
    have hlen := congrArg List.length (List.cons.inj htext).2
    rwa [List.length_take_of_le (hle c (s ++ y)), List.length_take_of_le (hle c s)] at hlen
  · intro h
    rw [cutting, cutting, h, List.take_append_of_le_length (hle c s)]

/-- What follows the tokens of a text, by the first of them. -/
lemma scan_cons_append_iff (c : α) (s y : List α) (ts : List (κ × List α)) :
    scan (cutting cut) (c :: s ++ y) = scan (cutting cut) (c :: s) ++ ts ↔
      cut c (s ++ y) = cut c s ∧
        scan (cutting cut) (s.drop (cut c s).2 ++ y) =
          scan (cutting cut) (s.drop (cut c s).2) ++ ts := by
  rw [List.cons_append, scan_cons, scan_cons, List.cons_append, List.cons.injEq,
    cutting_append_iff hle]
  refine and_congr_right fun h => ?_
  have hdrop : (s ++ y).drop (cutting cut c (s ++ y)).2 = s.drop (cut c s).2 ++ y := by
    rw [cutting, h, List.drop_append_of_le_length (hle c s)]
  rw [hdrop]
  exact Iff.rfl

/-- **The first token is the same, and the rest is parted.** -/
theorem parted_cons (c : α) (s y : List α) :
    Parted cut (c :: s) y ↔ cut c (s ++ y) = cut c s ∧ Parted cut (s.drop (cut c s).2) y :=
  scan_cons_append_iff hle c s y _

/-- **What the tokens of a text are followed by** is what is read of the text behind it. -/
theorem scan_append_eq_iff (x y : List α) (ts : List (κ × List α)) :
    scan (cutting cut) (x ++ y) = scan (cutting cut) x ++ ts ↔
      Parted cut x y ∧ ts = scan (cutting cut) y := by
  induction x using scan_induction with
  | nil =>
    rw [List.nil_append, scan_nil, List.nil_append, and_iff_right (parted_nil cut y)]
    exact eq_comm
  | cons c s ih => rw [scan_cons_append_iff hle, ih, parted_cons hle, and_assoc]

end Length

end Cut
