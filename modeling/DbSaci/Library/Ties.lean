import DbSaci.Library.Arrangement
import Mathlib.Data.List.Dedup

set_option relaxedAutoImplicit false
set_option autoImplicit false

/-!
# First records with ties

The first records of a sorted arrangement, with those that are not told apart from the last one of
them. A record is among them if it has few enough records in front of it.

## Main definitions

* `before`, `placesBefore` — the records in front of a record, and the places they take if those
  that are not told apart share one.
* `withTies` — the first records and those tied with the last one of them.

## Main results

* `withTies_eq_filter` — they are the records with few enough in front.
* `placesBefore_le_before` — no more places than records.
* `forall_arrangement_withTies_iff` — when all arrangements of some records are those of the first
  ones with ties.
-/

namespace Sorting

variable {ρ : Type} (le : ρ → ρ → Bool)

/-- One record comes in front of the other one, not the other way round. -/
def less (x y : ρ) : Bool := le x y && !le y x

/-- Two records are not told apart. -/
def tied (x y : ρ) : Bool := le x y && le y x

/-- How many records stand in front of one. -/
def before (records : List ρ) (x : ρ) : ℕ := records.countP fun y => less le y x

/-- How many places they take, if those that are not told apart share one. -/
def placesBefore (records : List ρ) (x : ρ) : ℕ :=
  ((records.filter fun y => less le y x).pwFilter fun y z => tied le y z = false).length

/-- The first records, with those that tie with the last one of them. -/
def withTies (n : ℕ) (arranged : List ρ) : List ρ :=
  arranged.take n ++
    (arranged.drop n).takeWhile fun y => (arranged.take n).getLast?.any fun x => tied le x y

/-- There are no more places than records. -/
lemma placesBefore_le_before (records : List ρ) (x : ρ) :
    placesBefore le records x ≤ before le records x := by
  rw [placesBefore, before, List.countP_eq_length_filter]
  exact (List.pwFilter_sublist _).length_le

lemma before_perm {records records' : List ρ} (h : records.Perm records') (x : ρ) :
    before le records x = before le records' x := h.countP_eq _

variable {le} (h : Order le)

include h in
lemma le_refl (x : ρ) : le x x = true := (h.total x x).elim id id

include h in
/-- What is not in front comes behind. -/
lemma le_of_not_less {x y : ρ} (hless : less le x y = false) : le y x = true := by
  rcases h.total x y with hxy | hyx
  · rw [less, hxy, Bool.true_and, Bool.not_eq_false'] at hless
    exact hless
  · exact hyx

lemma less_eq_true {x y : ρ} : less le x y = true ↔ le x y = true ∧ le y x = false := by
  rw [less, Bool.and_eq_true, Bool.not_eq_true']

include h in
lemma less_of_less_of_le {x y z : ρ} (hxy : less le x y = true) (hyz : le y z = true) :
    less le x z = true := by
  obtain ⟨hle, hnot⟩ := less_eq_true.1 hxy
  refine less_eq_true.2 ⟨h.trans x y z hle hyz, ?_⟩
  rw [← Bool.not_eq_true]
  intro hzx
  rw [h.trans y z x hyz hzx] at hnot
  cases hnot

include h in
lemma less_of_le_of_less {x y z : ρ} (hxy : le x y = true) (hyz : less le y z = true) :
    less le x z = true := by
  obtain ⟨hle, hnot⟩ := less_eq_true.1 hyz
  refine less_eq_true.2 ⟨h.trans x y z hxy hle, ?_⟩
  rw [← Bool.not_eq_true]
  intro hzx
  rw [h.trans z x y hzx hxy] at hnot
  cases hnot

include h in
/-- A record that is not behind has no more in front of it. -/
lemma before_mono (records : List ρ) {x y : ρ} (hxy : le x y = true) :
    before le records x ≤ before le records y := by
  apply List.countP_mono_left
  intro z _ hz
  exact less_of_less_of_le h hz hxy

/-! ### The first records of an arrangement -/

/-- The first elements that satisfy what all in front of such an element satisfy. -/
lemma takeWhile_eq_filter {R : ρ → ρ → Prop} {p : ρ → Bool} {l : List ρ} (hl : l.Pairwise R)
    (hp : ∀ x ∈ l, ∀ y, R x y → p y = true → p x = true) : l.takeWhile p = l.filter p := by
  induction l with
  | nil => rfl
  | cons x l ih =>
    obtain ⟨hx, hl⟩ := List.pairwise_cons.1 hl
    have ih := ih hl fun y hy => hp y (List.mem_cons_of_mem x hy)
    by_cases hpx : p x = true
    · rw [List.takeWhile_cons_of_pos hpx, List.filter_cons_of_pos hpx, ih]
    · rw [List.takeWhile_cons_of_neg hpx, List.filter_cons_of_neg hpx, eq_comm,
        List.filter_eq_nil_iff]
      intro y hy hpy
      exact hpx (hp x List.mem_cons_self y (hx y hy) hpy)

include h in
/-- The records in front of a record of an arrangement stand in front of it there. -/
lemma before_le_length {a b : List ρ} {x : ρ}
    (hsorted : (a ++ x :: b).Pairwise fun x y => le x y = true) :
    before le (a ++ x :: b) x ≤ a.length := by
  have hbehind : (x :: b).countP (fun y => less le y x) = 0 := by
    rw [List.countP_eq_zero]
    intro y hy hless
    obtain ⟨-, hnot⟩ := less_eq_true.1 hless
    rcases List.mem_cons.1 hy with rfl | hy
    · rw [le_refl h] at hnot
      cases hnot
    · rw [(List.pairwise_cons.1 (List.pairwise_append.1 hsorted).2.1).1 y hy] at hnot
      cases hnot
  rw [before, List.countP_append, hbehind, Nat.add_zero]
  exact List.countP_le_length

include h in
/-- **The first records with ties** are those with few enough records in front. -/
theorem withTies_eq_filter (n : ℕ) {arranged : List ρ}
    (hsorted : arranged.Pairwise fun x y => le x y = true) :
    withTies le n arranged = arranged.filter fun x => decide (before le arranged x < n) := by
  have hfront : ∀ x ∈ arranged.take n, before le arranged x < n := by
    intro x hx
    obtain ⟨a, b, hab⟩ := List.append_of_mem hx
    have hall : arranged = a ++ x :: (b ++ arranged.drop n) := by
      rw [← List.cons_append, ← List.append_assoc, ← hab, List.take_append_drop]
    have hlen : a.length < n := by
      have := congrArg List.length hab
      rw [List.length_take, List.length_append, List.length_cons] at this
      omega
    rw [hall] at hsorted ⊢
    exact (before_le_length h hsorted).trans_lt hlen
  have hsplit : (arranged.filter fun x => decide (before le arranged x < n)) =
      (arranged.take n).filter (fun x => decide (before le arranged x < n)) ++
        (arranged.drop n).filter fun x => decide (before le arranged x < n) := by
    rw [← List.filter_append, List.take_append_drop]
  have htake : (arranged.take n).filter (fun x => decide (before le arranged x < n)) =
      arranged.take n := by
    rw [List.filter_eq_self]
    exact fun x hx => decide_eq_true (hfront x hx)
  rw [hsplit, htake, withTies]
  congr 1
  have hdrop : (arranged.drop n).Pairwise fun x y => le x y = true :=
    hsorted.sublist (List.drop_sublist n arranged)
  cases hlast : (arranged.take n).getLast? with
  | none =>
    -- there are no first records
    have hnil : arranged.take n = [] := List.getLast?_eq_none_iff.1 hlast
    have hnone : ∀ l : List ρ,
        l.takeWhile (fun y => (none : Option ρ).any fun x => tied le x y) = [] := by
      intro l
      cases l <;> rfl
    rw [hnone, eq_comm, List.filter_eq_nil_iff]
    intro x hx hlt
    rcases List.take_eq_nil_iff.1 hnil with rfl | rfl
    · exact Nat.not_lt_zero _ (of_decide_eq_true hlt)
    · rw [List.drop_nil] at hx
      cases hx
  | some a =>
    have ha : a ∈ arranged.take n := List.mem_of_getLast? hlast
    have hcross : ∀ x ∈ arranged.take n, ∀ y ∈ arranged.drop n, le x y = true := by
      have := hsorted
      rw [← List.take_append_drop n arranged, List.pairwise_append] at this
      exact this.2.2
    have hpast : ∀ x ∈ arranged.take n, le x a = true := by
      intro x hx
      obtain ⟨l, hl⟩ := List.getLast?_eq_some_iff.1 hlast
      have hpair : (arranged.take n).Pairwise fun x y => le x y = true :=
        hsorted.sublist (List.take_sublist n arranged)
      rw [hl] at hpair hx
      rcases List.mem_append.1 hx with hx | hx
      · exact (List.pairwise_append.1 hpair).2.2 x hx a List.mem_cons_self
      · rw [List.mem_singleton.1 hx]
        exact le_refl h a
    show (arranged.drop n).takeWhile (fun y => tied le a y) = _
    rw [takeWhile_eq_filter hdrop]
    · apply List.filter_congr
      intro y hy
      rw [tied, hcross a ha y hy, Bool.true_and]
      by_cases hya : le y a = true
      · rw [hya, eq_comm, decide_eq_true_eq]
        exact (before_mono h arranged hya).trans_lt (hfront a ha)
      · -- all first records are in front of this one
        have hless : ∀ x ∈ arranged.take n, less le x y = true := by
          intro x hx
          refine less_of_le_of_less h (hpast x hx) (less_eq_true.2 ⟨hcross a ha y hy, ?_⟩)
          exact Bool.eq_false_iff.2 hya
        have hcount : (arranged.take n).length ≤ before le arranged y := by
          rw [← List.countP_eq_length.2 hless]
          exact (List.take_sublist n arranged).countP_le
        have hlen : (arranged.take n).length = n := by
          rw [List.length_take, min_eq_left]
          have := List.length_pos_of_mem hy
          rw [List.length_drop] at this
          omega
        rw [Bool.eq_false_iff.2 hya, eq_comm, decide_eq_false_iff_not]
        omega
    · intro x hx y hxy hy
      rw [tied, Bool.and_eq_true] at hy ⊢
      exact ⟨hcross a ha x hx, h.trans x y a hxy hy.2⟩

include h in
/-- **When all arrangements of some records are those of the first ones with ties**: if the records
are those with few enough in front, and are not arranged differently. -/
theorem forall_arrangement_withTies_iff {le' : ρ → ρ → Bool} (h' : Order le') (records : List ρ)
    (p : ρ → Bool) (n : ℕ) :
    (∀ arranged, Arrangement le' (records.filter p) arranged →
      ∃ all, Arrangement le records all ∧ withTies le n all = arranged) ↔
    (∀ x ∈ records, p x = true ↔ before le records x < n) ∧
      ∀ x y, List.Subperm [x, y] (records.filter p) → le' x y = true → le x y = true := by
  constructor
  · intro hall
    have hsame : ∀ arranged, Arrangement le' (records.filter p) arranged →
        arranged.Pairwise (fun x y => le x y = true) ∧
          ∀ x ∈ records, p x = true ↔ before le records x < n := by
      intro arranged harr
      obtain ⟨all, ⟨hperm, hsorted⟩, rfl⟩ := hall arranged harr
      rw [withTies_eq_filter h n hsorted] at harr ⊢
      refine ⟨hsorted.sublist List.filter_sublist, fun x hx => ?_⟩
      have hmem := harr.1.mem_iff (a := x)
      rw [List.mem_filter, List.mem_filter, decide_eq_true_eq, before_perm le hperm] at hmem
      have hxall : x ∈ all := hperm.mem_iff.2 hx
      constructor
      · exact fun hp => (hmem.2 ⟨hx, hp⟩).2
      · exact fun hlt => (hmem.1 ⟨hxall, hlt⟩).2
    refine ⟨(hsame _ (arrangement_mergeSort h' _)).2, ?_⟩
    exact (forall_arrangement_iff h').1 fun arranged harr => (hsame arranged harr).1
  · rintro ⟨hcount, hpairs⟩ arranged harr
    have hsorted := (forall_arrangement_iff h').2 hpairs arranged harr
    -- the other records behind them, arranged as they have to be
    let rest := (records.filter fun x => !p x).mergeSort le
    have hrest : Arrangement le (records.filter fun x => !p x) rest := arrangement_mergeSort h _
    have hperm : (arranged ++ rest).Perm records :=
      (harr.1.append hrest.1).trans (List.filter_append_perm p records)
    have hmem : ∀ x ∈ arranged, before le records x < n := by
      intro x hx
      obtain ⟨hxr, hpx⟩ := List.mem_filter.1 (harr.1.mem_iff.1 hx)
      exact (hcount x hxr).1 hpx
    have hnot : ∀ x ∈ rest, ¬ before le records x < n := by
      intro x hx hlt
      obtain ⟨hxr, hpx⟩ := List.mem_filter.1 (hrest.1.mem_iff.1 hx)
      rw [(hcount x hxr).2 hlt] at hpx
      cases hpx
    have hall : (arranged ++ rest).Pairwise fun x y => le x y = true := by
      rw [List.pairwise_append]
      refine ⟨hsorted, hrest.2, fun x hx y hy => ?_⟩
      by_contra hxy
      rw [Bool.not_eq_true] at hxy
      have hyx := (h.total x y).resolve_left (by rw [hxy]; decide)
      exact hnot y hy ((before_mono h records hyx).trans_lt (hmem x hx))
    refine ⟨arranged ++ rest, ⟨hperm, hall⟩, ?_⟩
    rw [withTies_eq_filter h n hall, List.filter_append]
    have hfirst : arranged.filter (fun x => decide (before le (arranged ++ rest) x < n)) =
        arranged := by
      rw [List.filter_eq_self]
      intro x hx
      rw [decide_eq_true_eq, before_perm le hperm]
      exact hmem x hx
    have hlast : rest.filter (fun x => decide (before le (arranged ++ rest) x < n)) = [] := by
      rw [List.filter_eq_nil_iff]
      intro x hx
      rw [decide_eq_true_eq, before_perm le hperm]
      exact hnot x hx
    rw [hfirst, hlast, List.append_nil]

end Sorting
