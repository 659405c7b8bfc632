import Mathlib.Data.ENat.Lattice
import Mathlib.Data.List.Basic
import Mathlib.Data.List.Nodup

set_option relaxedAutoImplicit false
set_option autoImplicit false

/-!
# Numbering rows as they are accepted

A filter that numbers its candidates: each candidate is offered the number of rows accepted so
far plus one, and the number is used up only when the candidate is accepted. Whatever the test on
the numbers is, such a filter lets through the first rows of an ordinary filter, up to a bound.

## Main definitions

* `accept` — the numbering filter.
* `cap` — the first rows of a list, up to a bound that may be infinite.
* `lesser` — the lesser of two bounds.
* `IsBound` — the bound a test on numbers amounts to.
* `eraseRepeats` — a list without its repetitions, first occurrences kept.
* `surplus`, `gaps` — the entries there are too many for some boxes, and the boxes left empty.

## Main results

* `IsBound.inf` — the bound of a conjunction is the least of the bounds.
* `accept_eq_cap` — the numbering filter is an ordinary filter followed by a bound.
* `length_eq_iff_surplus_eq_gaps` — when there are as many entries as boxes.
-/

section Accept

variable {α : Type}

/-- Filter rows by a test that also sees the number the row would get. -/
def accept (p : ℕ → α → Bool) : ℕ → List α → List α
  | _, [] => []
  | n, r :: rows => if p (n + 1) r then r :: accept p (n + 1) rows else accept p n rows

/-- The first rows of a list, up to a bound. -/
def cap : ℕ∞ → List α → List α
  | none, rows => rows
  | some n, rows => rows.take n

@[simp] lemma cap_top (rows : List α) : cap ⊤ rows = rows := rfl

@[simp] lemma cap_coe (n : ℕ) (rows : List α) : cap n rows = rows.take n := rfl

@[simp] lemma cap_zero (rows : List α) : cap 0 rows = [] := List.take_zero (l := rows)

@[simp] lemma cap_nil (L : ℕ∞) : cap L ([] : List α) = [] := by
  induction L using ENat.recTopCoe with
  | top => rfl
  | coe n => exact List.take_nil

/-- A bound that is not zero keeps a single row. -/
lemma cap_singleton {L : ℕ∞} (h : L ≠ 0) (r : α) : cap L [r] = [r] := by
  induction L using ENat.recTopCoe with
  | top => rfl
  | coe n =>
    have hn : n ≠ 0 := by simpa using h
    rw [cap_coe, List.take_of_length_le]
    rw [List.length_singleton]
    omega

/-- How many rows a bound leaves. -/
lemma length_cap_range (L : ℕ∞) (n : ℕ) : ((cap L (List.range n)).length : ℕ∞) = L ⊓ n := by
  induction L using ENat.recTopCoe with
  | top => simp
  | coe m =>
    rw [cap_coe, List.length_take, List.length_range]
    exact_mod_cast rfl

/-- Two bounds that leave equally many rows of every list are equal. -/
lemma eq_of_length_cap {L M : ℕ∞}
    (h : ∀ n, (cap L (List.range n)).length = (cap M (List.range n)).length) : L = M := by
  by_contra hne
  obtain ⟨n, hn⟩ : ∃ n : ℕ, L ⊓ n ≠ M ⊓ n := by
    rcases lt_or_gt_of_ne hne with hlt | hlt
    · obtain ⟨l, rfl⟩ := ENat.ne_top_iff_exists.1 hlt.ne_top
      refine ⟨l + 1, ?_⟩
      rw [inf_eq_left.2 (by exact_mod_cast Nat.le_succ l)]
      have : ((l + 1 : ℕ) : ℕ∞) ≤ M := by exact_mod_cast Order.add_one_le_of_lt hlt
      rw [inf_eq_right.2 this]
      exact_mod_cast (Nat.lt_succ_self l).ne
    · obtain ⟨m, rfl⟩ := ENat.ne_top_iff_exists.1 hlt.ne_top
      refine ⟨m + 1, ?_⟩
      have : ((m + 1 : ℕ) : ℕ∞) ≤ L := by exact_mod_cast Order.add_one_le_of_lt hlt
      rw [inf_eq_right.2 this, inf_eq_left.2 (by exact_mod_cast Nat.le_succ m)]
      exact_mod_cast (Nat.lt_succ_self m).ne'
  exact hn (by rw [← length_cap_range, ← length_cap_range, h])

/-- The lesser of two bounds. -/
def lesser : ℕ∞ → ℕ∞ → ℕ∞
  | none, M => M
  | some l, none => some l
  | some l, some m => some (min l m)

lemma lesser_eq_inf (L M : ℕ∞) : lesser L M = L ⊓ M := by
  induction L using ENat.recTopCoe with
  | top => exact (top_inf_eq M).symm
  | coe l =>
    induction M using ENat.recTopCoe with
    | top => exact (inf_top_eq _).symm
    | coe m => exact WithTop.coe_min l m

/-! ### The bound of a test on numbers -/

/-- The test accepts exactly the numbers up to `L` before it first fails. -/
def IsBound (ok : ℕ → Bool) (L : ℕ∞) : Prop := ∀ n : ℕ, (n : ℕ∞) < L ↔ ∀ i ≤ n, ok (i + 1) = true

namespace IsBound

variable {ok ok' : ℕ → Bool} {L L' : ℕ∞}

/-- A test that always succeeds has no bound. -/
lemma top (h : ∀ n, ok (n + 1) = true) : IsBound ok ⊤ := fun n =>
  ⟨fun _ i _ => h i, fun _ => ENat.natCast_lt_top n⟩

/-- A test that fails at once lets nothing through. -/
lemma zero (h : ok 1 = false) : IsBound ok 0 := fun n =>
  ⟨fun hn => absurd hn (by simp), fun hall => by simpa [h] using hall 0 (Nat.zero_le n)⟩

/-- A test that succeeds exactly up to `k`, or up to `k` and again later. -/
lemma coe {k : ℕ} (h : ∀ n < k, ok (n + 1) = true) (hk : ok (k + 1) = false) :
    IsBound ok k := by
  intro n
  rw [Nat.cast_lt]
  constructor
  · intro hn i hi
    exact h i (by omega)
  · intro hall
    by_contra hn
    simpa [hk] using hall k (by omega)

/-- The bound of a conjunction is the least of the bounds. -/
lemma inf (h : IsBound ok L) (h' : IsBound ok' L') :
    IsBound (fun n => ok n && ok' n) (L ⊓ L') := by
  intro n
  rw [lt_inf_iff, h n, h' n]
  simp only [Bool.and_eq_true]
  constructor
  · intro hall i hi
    exact ⟨hall.1 i hi, hall.2 i hi⟩
  · intro hall
    exact ⟨fun i hi => (hall i hi).1, fun i hi => (hall i hi).2⟩

/-- The bound of a conjunction of tests. -/
lemma all {τ : Type} {test : τ → ℕ → Bool} {bound : τ → ℕ∞}
    (h : ∀ t, IsBound (test t) (bound t)) (ts : List τ) :
    IsBound (fun n => ts.all fun t => test t n) ((ts.map bound).foldr lesser ⊤) := by
  induction ts with
  | nil => exact top fun _ => rfl
  | cons t ts ih => simpa [lesser_eq_inf] using (h t).inf ih

/-- What is left of a bound when one row has been accepted. -/
lemma tail {k : ℕ∞} (h : IsBound ok (k + 1)) : IsBound (fun n => ok (n + 1)) k := by
  intro n
  have hn := h (n + 1)
  rw [Nat.cast_add, Nat.cast_one, ENat.add_lt_add_iff_right (by simp)] at hn
  rw [hn]
  have hfirst : ok 1 = true := (h 0).1 (by simp) 0 le_rfl
  constructor
  · intro hall i hi
    exact hall (i + 1) (by omega)
  · intro hall i hi
    cases i with
    | zero => exact hfirst
    | succ i => exact hall i (by omega)

/-- A bound that is not zero lets the first number through. -/
lemma first (h : IsBound ok L) : ok 1 = true ↔ L ≠ 0 := by
  rw [← pos_iff_ne_zero, ← Nat.cast_zero, h 0]
  simp

end IsBound

/-- **A numbering filter is an ordinary filter followed by a bound.** -/
theorem accept_eq_cap {p : ℕ → α → Bool} {q : α → Bool} {ok : ℕ → Bool} {L : ℕ∞} {n : ℕ}
    (hp : ∀ i r, p (n + i) r = (q r && ok i)) (hL : IsBound ok L) (rows : List α) :
    accept p n rows = cap L (rows.filter q) := by
  induction rows generalizing n ok L with
  | nil => simp [accept]
  | cons r rows ih =>
    rw [accept, hp 1 r]
    cases hq : q r with
    | false => simpa [hq] using ih hp hL
    | true =>
      by_cases h0 : L = 0
      · -- the row is refused, and so is every later one
        have hok : ok 1 = false := by
          rw [← Bool.not_eq_true, hL.first, not_not, h0]
        subst h0
        simpa [hok] using ih hp hL
      · obtain ⟨k, rfl⟩ : ∃ k, L = k + 1 :=
          ⟨L - 1, (tsub_add_cancel_of_le (Order.one_le_iff_ne_zero.2 h0)).symm⟩
        have hstep : ∀ i r, p (n + 1 + i) r = (q r && ok (i + 1)) := by
          intro i r
          rw [← hp, Nat.add_assoc, Nat.add_comm 1 i]
        rw [List.filter_cons_of_pos hq, hL.first.2 h0, Bool.true_and, if_pos rfl, ih hstep hL.tail]
        induction k using ENat.recTopCoe with
        | top => rfl
        | coe k => exact (List.take_succ_cons).symm

end Accept

/-! ### Repetitions -/

section Repetitions

variable {β : Type} [DecidableEq β]

/-- A list without its repetitions: the first occurrence of each entry is kept. -/
def eraseRepeats : List β → List β
  | [] => []
  | x :: xs => x :: (eraseRepeats xs).filter fun y => y ≠ x

@[simp] lemma eraseRepeats_nil : eraseRepeats ([] : List β) = [] := rfl

@[simp] lemma eraseRepeats_singleton (x : β) : eraseRepeats [x] = [x] := rfl

lemma eraseRepeats_eq_self {xs : List β} (h : xs.Nodup) : eraseRepeats xs = xs := by
  induction xs with
  | nil => rfl
  | cons x xs ih =>
    obtain ⟨hx, hxs⟩ := List.nodup_cons.1 h
    rw [eraseRepeats, ih hxs, List.filter_eq_self.2]
    intro y hy
    simpa using fun hyx : y = x => hx (hyx ▸ hy)

/-- The first entry stays the first. -/
lemma take_one_eraseRepeats (xs : List β) : (eraseRepeats xs).take 1 = xs.take 1 := by
  cases xs <;> rfl

/-- One entry repeated counts once. -/
lemma eraseRepeats_replicate_append (n : ℕ) (x : β) (xs : List β) :
    eraseRepeats (List.replicate (n + 1) x ++ xs) =
      x :: (eraseRepeats xs).filter fun y => y ≠ x := by
  induction n with
  | zero => rfl
  | succ n ih =>
    rw [List.replicate_succ, List.cons_append, eraseRepeats, ih]
    simp

lemma eraseRepeats_replicate (n : ℕ) (x : β) : eraseRepeats (List.replicate (n + 1) x) = [x] := by
  simpa using eraseRepeats_replicate_append n x []

end Repetitions

/-! ### Boxes -/

section Boxes

variable {β : Type} (f : β → Option ℕ) (xs : List β)

/-- The entries of a box. -/
def box (i : ℕ) : List β := xs.filter fun x => f x = some i

/-- The entries of none of the first boxes. -/
def outside (n : ℕ) : List β := xs.filter fun x => ∀ i < n, f x ≠ some i

lemma outside_zero : outside f xs 0 = xs :=
  List.filter_eq_self.2 fun _ _ => decide_eq_true fun _ hi => absurd hi (Nat.not_lt_zero _)

/-- One more box. -/
lemma length_outside (n : ℕ) :
    (outside f xs n).length = (box f xs n).length + (outside f xs (n + 1)).length := by
  induction xs with
  | nil => rfl
  | cons x xs ih =>
    have hsucc : (∀ i < n + 1, f x ≠ some i) ↔ (∀ i < n, f x ≠ some i) ∧ f x ≠ some n :=
      Nat.forall_lt_succ_right
    have hin : f x = some n → ∀ i < n, f x ≠ some i := by
      intro hn i hi h
      rw [hn] at h
      exact hi.ne' (Option.some.inj h)
    simp only [outside, box, ← List.countP_eq_length_filter] at ih ⊢
    rw [List.countP_cons, List.countP_cons, List.countP_cons, ih]
    simp only [decide_eq_true_eq, hsucc]
    by_cases hn : f x = some n
    · rw [if_pos (hin hn), if_pos hn, if_neg fun h => h.2 hn]
      omega
    · rw [if_neg hn]
      simp only [ne_eq, hn, not_false_eq_true, and_true]
      omega

/-- Each entry is in one box, or outside of them. -/
lemma length_eq_sum_boxes (n : ℕ) : xs.length =
    ((List.range n).map fun i => (box f xs i).length).sum + (outside f xs n).length := by
  induction n with
  | zero => rw [outside_zero, List.range_zero, List.map_nil, List.sum_nil, Nat.zero_add]
  | succ n ih =>
    rw [ih, length_outside, List.range_succ, List.map_append, List.sum_append, List.map_singleton,
      List.sum_singleton, Nat.add_assoc]

/-- The entries there are too many: all but one of each box, and those outside. -/
def surplus (n : ℕ) : ℕ :=
  ((List.range n).map fun i => (box f xs i).length - 1).sum + (outside f xs n).length

/-- The number of empty boxes. -/
def gaps (n : ℕ) : ℕ := ((List.range n).filter fun i => (box f xs i).isEmpty).length

/-- **There are as many entries as boxes exactly if there are as many too many as there are empty
boxes.** -/
theorem length_eq_iff_surplus_eq_gaps (n : ℕ) : xs.length = n ↔ surplus f xs n = gaps f xs n := by
  have hboxes : ∀ is : List ℕ, (is.map fun i => (box f xs i).length - 1).sum + is.length =
      (is.map fun i => (box f xs i).length).sum +
        (is.filter fun i => (box f xs i).isEmpty).length := by
    intro is
    induction is with
    | nil => rfl
    | cons i is ih =>
      rw [List.map_cons, List.map_cons, List.sum_cons, List.sum_cons, List.length_cons]
      cases hbox : box f xs i with
      | nil =>
        rw [List.filter_cons_of_pos (by rw [hbox]; rfl), List.length_cons, List.length_nil]
        omega
      | cons x rest =>
        rw [List.filter_cons_of_neg (by rw [hbox]; exact Bool.false_ne_true), List.length_cons]
        omega
  have hlen := length_eq_sum_boxes f xs n
  have hall := hboxes (List.range n)
  rw [List.length_range] at hall
  rw [surplus, gaps]
  omega

end Boxes
