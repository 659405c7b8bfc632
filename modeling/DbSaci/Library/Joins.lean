import Mathlib.Data.List.Dedup
import Mathlib.Data.List.Perm.Basic
import Mathlib.Data.List.Perm.Lattice

set_option relaxedAutoImplicit false
set_option autoImplicit false

/-!
# Outer joins

The joins of two tables as lists of joined rows, where a row without a match has `none` for the
other side. A full join is a left join together with the rows of the right join that have no left
part; a predicate that is to find these finds in addition the matched rows it holds for.

## Main definitions

* `Joins.matched`, `Joins.leftOnly`, `Joins.rightOnly` — the parts of a join.
* `Joins.left`, `Joins.right`, `Joins.full` — the joins.
* `Joins.distinctBy` — one record for each value.

## Main results

* `Joins.left_append_right_perm` — what the left join and a part of the right join have together.
* `Joins.distinct_append_perm_iff` — when the distinct values of two lists are those of all records.
-/

namespace Joins

variable {α β : Type}

/-- A joined row: its left part and its right part. -/
abbrev Row (α β : Type) := Option α × Option β

section Parts

variable (on : α → β → Bool) (l : List α) (r : List β)

/-- The rows that match. -/
def matched : List (Row α β) :=
  l.flatMap fun a => (r.filter (on a)).map fun b => (some a, some b)

/-- The left rows without a match. -/
def leftOnly : List (Row α β) :=
  (l.filter fun a => r.all fun b => !on a b).map fun a => (some a, none)

/-- The right rows without a match. -/
def rightOnly : List (Row α β) :=
  (r.filter fun b => l.all fun a => !on a b).map fun b => (none, some b)

/-- `LEFT JOIN`. -/
def left : List (Row α β) := matched on l r ++ leftOnly on l r

/-- `RIGHT JOIN`. -/
def right : List (Row α β) := matched on l r ++ rightOnly on l r

/-- `FULL JOIN`. -/
def full : List (Row α β) := matched on l r ++ (leftOnly on l r ++ rightOnly on l r)

variable {on l r}

lemma mem_matched {x : Row α β} :
    x ∈ matched on l r ↔ ∃ a ∈ l, ∃ b ∈ r, on a b = true ∧ x = (some a, some b) := by
  simp only [matched, List.mem_flatMap, List.mem_map, List.mem_filter]
  constructor
  · rintro ⟨a, ha, b, ⟨hb, hon⟩, rfl⟩
    exact ⟨a, ha, b, hb, hon, rfl⟩
  · rintro ⟨a, ha, b, hb, hon, rfl⟩
    exact ⟨a, ha, b, ⟨hb, hon⟩, rfl⟩

/-- A predicate that holds for all rows without a left part keeps them. -/
lemma filter_rightOnly {key : Row α β → Bool} (hkey : ∀ b, key (none, some b) = true)
    (keep : Row α β → Bool) :
    (rightOnly on l r).filter (fun x => key x && keep x) = (rightOnly on l r).filter keep := by
  apply List.filter_congr
  intro x hx
  obtain ⟨b, -, rfl⟩ := List.mem_map.1 hx
  rw [hkey, Bool.true_and]

/-- The left join and that part of the right join have the rows of the full join. -/
lemma mem_left_or_right {key : Row α β → Bool} (hkey : ∀ b, key (none, some b) = true)
    (keep : Row α β → Bool) (x : Row α β) :
    x ∈ (left on l r).filter keep ∨ x ∈ (right on l r).filter (fun x => key x && keep x) ↔
      x ∈ (full on l r).filter keep := by
  rw [right, List.filter_append, filter_rightOnly hkey]
  simp only [left, full, List.mem_filter, List.mem_append, Bool.and_eq_true]
  constructor
  · rintro (⟨h | h, hx⟩ | ⟨h, -, hx⟩ | ⟨h, hx⟩)
    · exact ⟨.inl h, hx⟩
    · exact ⟨.inr (.inl h), hx⟩
    · exact ⟨.inl h, hx⟩
    · exact ⟨.inr (.inr h), hx⟩
  · rintro ⟨h | h | h, hx⟩
    · exact .inl ⟨.inl h, hx⟩
    · exact .inl ⟨.inr h, hx⟩
    · exact .inr (.inr ⟨h, hx⟩)

/-- **What the left join and a part of the right join have together**: the full join, and the
matched rows of that part once more. -/
theorem left_append_right_perm {key : Row α β → Bool} (hkey : ∀ b, key (none, some b) = true)
    (keep : Row α β → Bool) :
    ((left on l r).filter keep ++ (right on l r).filter fun x => key x && keep x).Perm
      ((full on l r).filter keep ++ (matched on l r).filter fun x => key x && keep x) := by
  simp only [left, right, full, List.filter_append, filter_rightOnly hkey, List.append_assoc]
  refine List.Perm.append_left _ (List.Perm.append_left _ ?_)
  exact List.perm_append_comm

end Parts

/-! ### Distinct values -/

section Distinct

variable {ρ Γ Δ : Type} [DecidableEq Γ]

/-- One record for each value. -/
def distinctBy (f : ρ → Γ) (records : List ρ) : List ρ :=
  records.pwFilter fun x y => f x ≠ f y

@[simp] lemma distinctBy_singleton (f : ρ → Γ) (x : ρ) : distinctBy f [x] = [x] :=
  List.pwFilter_eq_self.2 (List.pairwise_singleton _ x)

lemma distinctBy_subset (f : ρ → Γ) (records : List ρ) : distinctBy f records ⊆ records :=
  (List.pwFilter_sublist records).subset

lemma map_distinctBy (f : ρ → Γ) (records : List ρ) :
    (distinctBy f records).map f = (records.map f).dedup := by
  rw [List.dedup, List.pwFilter_map, distinctBy]

/-- Each record has its value among the distinct ones. -/
lemma exists_mem_distinctBy (f : ρ → Γ) {records : List ρ} {x : ρ} (hx : x ∈ records) :
    ∃ y ∈ distinctBy f records, f y = f x := by
  have hmem : f x ∈ (distinctBy f records).map f := by
    rw [map_distinctBy, List.mem_dedup]
    exact List.mem_map_of_mem hx
  exact List.mem_map.1 hmem

lemma nodup_map_distinctBy (f : ρ → Γ) (records : List ρ) :
    ((distinctBy f records).map f).Nodup := by
  rw [map_distinctBy]
  exact List.nodup_dedup _

variable [DecidableEq Δ] {f : ρ → Γ} {g h : ρ → Γ × Δ}

/-- Records that are distinct by more than a value have the values of all records. -/
lemma mem_map_distinctBy (hg : ∀ x, (g x).1 = f x) {records : List ρ} {v : Γ} :
    v ∈ (distinctBy g records).map f ↔ v ∈ records.map f := by
  constructor
  · intro hv
    obtain ⟨x, hx, rfl⟩ := List.mem_map.1 hv
    exact List.mem_map_of_mem (distinctBy_subset g records hx)
  · intro hv
    obtain ⟨x, hx, rfl⟩ := List.mem_map.1 hv
    obtain ⟨y, hy, hgy⟩ := exists_mem_distinctBy g hx
    rw [← hg, ← hgy, hg]
    exact List.mem_map_of_mem hy

/-- Records that are distinct by more than a value have distinct values exactly if the value
determines the rest. -/
lemma nodup_map_iff (hg : ∀ x, (g x).1 = f x) (records : List ρ) :
    ((distinctBy g records).map f).Nodup ↔
      ∀ x ∈ records, ∀ y ∈ records, f x = f y → g x = g y := by
  constructor
  · intro hnodup x hx y hy hf
    obtain ⟨x', hx', hgx⟩ := exists_mem_distinctBy g hx
    obtain ⟨y', hy', hgy⟩ := exists_mem_distinctBy g hy
    have hf' : f x' = f y' := by rw [← hg, ← hg, hgx, hgy, hg, hg, hf]
    rw [← hgx, ← hgy, List.inj_on_of_nodup_map hnodup hx' hy' hf']
  · intro hdet
    have hnodup := nodup_map_distinctBy g records
    rw [List.Nodup, List.pairwise_map] at hnodup ⊢
    refine hnodup.imp_of_mem fun {x y} hx hy hne hf => hne ?_
    exact hdet x (distinctBy_subset g records hx) y (distinctBy_subset g records hy) hf

/-- **The distinct values of two lists are those of all records** exactly if no value is in both,
and each value determines the rest in either. -/
theorem distinct_append_perm_iff (hg : ∀ x, (g x).1 = f x) (hh : ∀ x, (h x).1 = f x)
    (hdet : ∀ x y, f x = f y → h x = h y) {a b c : List ρ} (hmem : ∀ x, x ∈ a ∨ x ∈ b ↔ x ∈ c) :
    ((distinctBy g a ++ distinctBy g b).map f).Perm ((distinctBy h c).map f) ↔
      (∀ x ∈ a, ∀ y ∈ b, f x ≠ f y) ∧ (∀ x ∈ a, ∀ y ∈ a, f x = f y → g x = g y) ∧
        ∀ x ∈ b, ∀ y ∈ b, f x = f y → g x = g y := by
  have hall : ((distinctBy h c).map f).Nodup :=
    (nodup_map_iff hh c).2 fun x _ y _ hf => hdet x y hf
  rw [← nodup_map_iff hg a, ← nodup_map_iff hg b, List.map_append]
  constructor
  · intro hperm
    obtain ⟨ha, hb, hdisjoint⟩ := List.nodup_append'.1 (hperm.nodup_iff.2 hall)
    refine ⟨fun x hx y hy hf => ?_, ha, hb⟩
    apply hdisjoint ((mem_map_distinctBy hg).2 (List.mem_map_of_mem hx))
    rw [hf]
    exact (mem_map_distinctBy hg).2 (List.mem_map_of_mem hy)
  · rintro ⟨hdisjoint, ha, hb⟩
    have hnodup : ((distinctBy g a).map f ++ (distinctBy g b).map f).Nodup := by
      refine List.nodup_append'.2 ⟨ha, hb, fun v hva hvb => ?_⟩
      obtain ⟨x, hx, rfl⟩ := List.mem_map.1 ((mem_map_distinctBy hg).1 hva)
      obtain ⟨y, hy, hf⟩ := List.mem_map.1 ((mem_map_distinctBy hg).1 hvb)
      exact hdisjoint x hx y hy hf.symm
    rw [List.perm_ext_iff_of_nodup hnodup hall]
    intro v
    rw [List.mem_append, mem_map_distinctBy hg, mem_map_distinctBy hg, mem_map_distinctBy hh]
    simp only [List.mem_map]
    constructor
    · rintro (⟨x, hx, rfl⟩ | ⟨x, hx, rfl⟩)
      · exact ⟨x, (hmem x).1 (.inl hx), rfl⟩
      · exact ⟨x, (hmem x).1 (.inr hx), rfl⟩
    · rintro ⟨x, hx, rfl⟩
      exact ((hmem x).2 hx).imp (fun hx => ⟨x, hx, rfl⟩) fun hx => ⟨x, hx, rfl⟩

end Distinct

end Joins
