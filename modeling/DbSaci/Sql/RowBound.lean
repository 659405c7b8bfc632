import DbSaci.Sql.Block

set_option relaxedAutoImplicit false
set_option autoImplicit false

/-!
# Bounding the rows of a block

Oracle bounds the rows that go into a block, PostgreSQL's `LIMIT` bounds what comes out of it.
Where there is an `ORDER BY`, the limit is put on an inner query that selects every column, and
the block is evaluated over its rows. This module says for which blocks and bounds the two agree.

## Main definitions

* `Block.limited` — the results of a block that is translated with a limit.
* `Block.Fits` — the block gives the same results when `L` bounds the rows that go in and `M` is
  the limit.

## Main results

* `Block.limited_eq_of_fits`, `Block.fits_of_limited_eq` — the condition is exact.
-/

namespace DbSaci.Sql.Block

section Limited

variable {α β κ : Type} [DecidableEq α] [DecidableEq β] [DecidableEq κ]

/-- The results of a block with a limit over the rows its `WHERE` clause lets through. With an
`ORDER BY` the limit stands in an inner `SELECT *`, which keeps the `DISTINCT`; the server rejects
it when it has a `GROUP BY`, or when the outer query names a table. -/
def limited (b : Block) (m : Meaning α β κ) (M : ℕ∞) (rows : List α) : Option (List β) :=
  match M with
  | none => some (b.select m rows)
  | some n =>
    if b.ordered then
      if b.shape = .grouped ∨ b.qualified then none
      else
        some (select { b with distinct := false } m
          ((if b.distinct then eraseRepeats rows else rows).take n))
    else some ((b.select m rows).take n)

/-- When bounding the rows that go in by `L` is the same as translating with the limit `M`. -/
def Fits (b : Block) (L M : ℕ∞) : Prop :=
  if M = ⊤ then L = ⊤
  else if b.ordered then
    b.shape ≠ .grouped ∧ b.qualified = false ∧ L = M ∧ (b.distinct = true → M ≤ 1)
  else
    match b.shape with
    | .plain => L = M ∧ (b.distinct = true → M ≤ 1)
    | .aggregate => L = ⊤ ∧ M ≠ 0
    | .grouped => L = 0 ∧ M = 0

instance (b : Block) (L M : ℕ∞) : Decidable (b.Fits L M) := by
  unfold Fits
  split
  · infer_instance
  · split
    · infer_instance
    · split <;> infer_instance

variable {b : Block} {L M : ℕ∞}

/-! ### The condition is enough -/

omit [DecidableEq α] in
/-- At most one row of a block without aggregates: `DISTINCT` does nothing. -/
lemma select_take_one (hb : b.shape = .plain) (m : Meaning α β κ) (rows : List α) :
    b.select m (rows.take 1) = (rows.take 1).map m.project := by
  cases rows with
  | nil => simp [select_nil, hb]
  | cons r rows => simp [select_singleton, hb]

lemma eq_zero_or_one {M : ℕ∞} (h : M ≤ 1) : M = 0 ∨ M = 1 := by
  rcases eq_or_lt_of_le h with h | h
  · exact Or.inr h
  · exact Or.inl (Order.lt_one_iff.1 h)

theorem limited_eq_of_fits (h : b.Fits L M) (m : Meaning α β κ) (rows : List α) :
    b.limited m M rows = some (b.select m (cap L rows)) := by
  induction M using ENat.recTopCoe with
  | top =>
    obtain rfl : L = ⊤ := by simpa [Fits] using h
    rfl
  | coe n =>
    rw [Fits, if_neg (ENat.natCast_ne_top n)] at h
    change (if b.ordered then _ else _) = _
    by_cases hord : b.ordered = true
    · rw [if_pos hord] at h ⊢
      obtain ⟨hshape, hqual, rfl, hone⟩ := h
      rw [if_neg (by simp [hshape, hqual]), cap_coe]
      congr 1
      cases hdist : b.distinct with
      | false =>
        obtain ⟨shape, distinct, ordered, qualified⟩ := b
        obtain rfl : distinct = false := hdist
        rfl
      | true =>
        -- with at most one row neither `DISTINCT` does anything
        rw [if_pos rfl]
        rcases eq_zero_or_one (hone hdist) with h0 | h1
        · obtain rfl : n = 0 := by exact_mod_cast h0
          simp [select_nil]
        · obtain rfl : n = 1 := by exact_mod_cast h1
          rw [take_one_eraseRepeats]
          cases rows with
          | nil => simp [select_nil]
          | cons r rows => simp [select_singleton]
    · rw [if_neg hord] at h ⊢
      congr 1
      cases hshape : b.shape with
      | plain =>
        simp only [hshape] at h
        obtain ⟨rfl, hone⟩ := h
        rw [cap_coe]
        cases hdist : b.distinct with
        | false => simp [select, sorted, hshape, hdist, hord]
        | true =>
          rcases eq_zero_or_one (hone hdist) with h0 | h1
          · obtain rfl : n = 0 := by exact_mod_cast h0
            simp [select_nil, hshape]
          · obtain rfl : n = 1 := by exact_mod_cast h1
            rw [select_take_one hshape]
            simp [select, sorted, outputs, hshape, hdist, hord, take_one_eraseRepeats]
      | aggregate =>
        simp only [hshape] at h
        obtain ⟨rfl, hne⟩ := h
        rw [cap_top, select_aggregate b m hshape]
        exact cap_singleton hne _
      | grouped =>
        simp only [hshape] at h
        obtain ⟨rfl, h0⟩ := h
        obtain rfl : n = 0 := by exact_mod_cast h0
        simp [select_nil, hshape]

/-- A limit of zero leaves nothing of any rows. -/
lemma limited_zero (b : Block) (m : Meaning α β κ) (rows rows' : List α) :
    b.limited m 0 rows = b.limited m 0 rows' := by
  change (if b.ordered then _ else _) = (if b.ordered then _ else _)
  simp only [List.take_zero]

lemma Fits.eq_zero (h : b.Fits L 0) : L = 0 := by
  rw [Fits, if_neg (ENat.top_ne_zero.symm)] at h
  by_cases hord : b.ordered = true
  · rw [if_pos hord] at h
    exact h.2.2.1
  · rw [if_neg hord] at h
    cases hb : b.shape with
    | plain => simp only [hb] at h; exact h.1
    | aggregate => simp [hb] at h
    | grouped => simp only [hb] at h; exact h.1

end Limited

/-! ### The condition is necessary -/

section Necessary

variable {b : Block} {L M : ℕ∞}

/-- Rows that are their own results and keys, and what is computed from a group. -/
def numbers (aggregate : List ℕ → ℕ) : Meaning ℕ ℕ ℕ where
  project := id
  aggregate := aggregate
  key := id
  rowLe _ _ := true
  outLe _ _ := true

/-- Counting the rows of an aggregate. -/
lemma select_count (hb : b.shape = .aggregate) (rows : List ℕ) :
    b.select (numbers List.length) rows = [rows.length] :=
  select_aggregate b _ hb rows

/-- A limit that is not zero tells one row from none. -/
lemma limited_singleton_ne (b : Block) (hM : M ≠ 0) :
    b.limited (numbers List.length) M [0] ≠ some (b.select (numbers List.length) []) := by
  have hone : ∀ b' : Block, b'.shape = b.shape →
      b'.select (numbers List.length) [0] ≠ b.select (numbers List.length) [] := by
    intro b' hshape
    rw [select_singleton, select_nil, hshape]
    cases b.shape <;> simp [numbers]
  induction M using ENat.recTopCoe with
  | top => exact fun h => hone b rfl (Option.some.inj h)
  | coe n =>
    obtain ⟨k, rfl⟩ := Nat.exists_eq_succ_of_ne_zero (show n ≠ 0 by exact_mod_cast hM)
    intro h
    change (if b.ordered then _ else _) = _ at h
    split at h
    · split at h
      · cases h
      · refine hone { b with distinct := false } rfl ?_
        simpa using Option.some.inj h
    · refine hone b rfl ?_
      rw [select_singleton] at h ⊢
      simpa using Option.some.inj h

/-- Rows that differ are told apart by every block that is not an aggregate. -/
lemma outputs_numbers {shape : Shape} (hb : shape ≠ .aggregate) {rows : List ℕ} (h : rows.Nodup) :
    outputs shape (numbers fun g => g.headD 0) rows = rows := by
  have hgroup : ∀ k ∈ rows, (rows.filter fun r => r = k) = [k] := by
    intro k hk
    rw [List.filter_eq, List.count_eq_one_of_mem h hk]
    rfl
  cases shape with
  | plain => exact List.map_id rows
  | aggregate => exact absurd rfl hb
  | grouped =>
    change ((eraseRepeats (rows.map id)).map _).map _ = rows
    rw [List.map_id, eraseRepeats_eq_self h, List.map_map]
    calc rows.map _ = rows.map id := List.map_congr_left fun k hk => by
          change (rows.filter fun r => r = k).headD 0 = k
          rw [hgroup k hk]
          rfl
      _ = rows := List.map_id rows

lemma length_select_numbers (hb : b.shape ≠ .aggregate) {rows : List ℕ} (h : rows.Nodup) :
    (b.select (numbers fun g => g.headD 0) rows).length = rows.length := by
  rw [select, outputs_numbers hb h]
  split
  · rw [List.length_map, length_sorted]
  · rw [length_sorted, eraseRepeats_eq_self h, ite_self]

lemma nodup_cap_range (L : ℕ∞) (n : ℕ) : (cap L (List.range n)).Nodup := by
  induction L using ENat.recTopCoe with
  | top => exact List.nodup_range
  | coe m => exact List.nodup_range.sublist (List.take_sublist m _)

/-- A block over one group of equal rows, by how many there are. -/
lemma select_grouped_replicate (hb : b.shape = .grouped) (n : ℕ) :
    b.select (numbers List.length) (List.replicate (n + 1) 0) = [n + 1] := by
  have hgroups : groups id (List.replicate (n + 1) 0) = [List.replicate (n + 1) 0] := by
    rw [groups, List.map_id, eraseRepeats_replicate]
    simp
  obtain ⟨shape, distinct, ordered, qualified⟩ := b
  obtain rfl : shape = .grouped := hb
  cases distinct <;> simp [select, outputs, numbers, hgroups]

/-- Without a limit no row may be left out. -/
lemma eq_top_of_select_eq
    (h : ∀ (m : Meaning ℕ ℕ ℕ) rows, b.select m rows = b.select m (cap L rows)) : L = ⊤ := by
  refine eq_of_length_cap fun n => ?_
  by_cases hb : b.shape = .aggregate
  · have hn := h (numbers List.length) (List.range n)
    rw [select_count hb, select_count hb] at hn
    simpa using hn.symm
  · have hn := h (numbers fun g => g.headD 0) (List.range n)
    have hlen := congrArg List.length hn
    rw [length_select_numbers hb (nodup_cap_range L n),
      length_select_numbers hb List.nodup_range] at hlen
    simpa using hlen.symm

/-- A number that is not at most one is two or more. -/
lemma exists_add_two {n : ℕ} (h : ¬ (n : ℕ∞) ≤ 1) : ∃ k, n = k + 2 := by
  have hn : 2 ≤ n := by
    rw [not_le] at h
    exact_mod_cast Order.add_one_le_of_lt h
  exact ⟨n - 2, by omega⟩

section Ordered

variable {n : ℕ} (h : ∀ (m : Meaning ℕ ℕ ℕ) (rows : List ℕ),
  select { b with distinct := false } m
    ((if b.distinct then eraseRepeats rows else rows).take n) = b.select m (cap L rows))

include h

lemma bound_of_ordered : L = n := by
  refine eq_of_length_cap fun k => ?_
  have hrange : (if b.distinct = true then eraseRepeats (List.range k) else List.range k) =
      List.range k := by
    rw [eraseRepeats_eq_self List.nodup_range, ite_self]
  by_cases hb : b.shape = .aggregate
  · have hk := h (numbers List.length) (List.range k)
    rw [select_count hb, hrange, select_count (b := { b with distinct := false }) hb] at hk
    simpa using hk.symm
  · have hk := congrArg List.length (h (numbers fun g => g.headD 0) (List.range k))
    rw [hrange, length_select_numbers hb (nodup_cap_range L k), ← cap_coe,
      length_select_numbers (b := { b with distinct := false }) hb (nodup_cap_range n k)] at hk
    exact hk.symm

lemma le_one_of_ordered (hgrouped : b.shape ≠ .grouped) (hdist : b.distinct = true) :
    (n : ℕ∞) ≤ 1 := by
  obtain rfl := bound_of_ordered h
  by_contra hone
  obtain ⟨k, rfl⟩ := exists_add_two hone
  cases hb : b.shape with
  | plain =>
    -- two rows with one result
    have hk := h { numbers List.length with project := fun _ => 0 } [0, 1]
    rw [cap_coe] at hk
    have hlen := congrArg List.length hk
    simp [select, outputs, hb, hdist, eraseRepeats] at hlen
  | aggregate =>
    -- one row twice
    have hk := h (numbers List.length) [0, 0]
    rw [cap_coe, select_count hb, select_count (b := { b with distinct := false }) hb] at hk
    simp [hdist, eraseRepeats] at hk
  | grouped => exact hgrouped hb

end Ordered

section Unordered

variable {n : ℕ} (h : ∀ (m : Meaning ℕ ℕ ℕ) (rows : List ℕ),
  (b.select m rows).take n = b.select m (cap L rows))

include h

lemma bound_of_unordered (hb : b.shape ≠ .aggregate) : L = n := by
  refine eq_of_length_cap fun k => ?_
  have hk := congrArg List.length (h (numbers fun g => g.headD 0) (List.range k))
  rw [List.length_take, length_select_numbers hb List.nodup_range,
    length_select_numbers hb (nodup_cap_range L k)] at hk
  rw [← hk, cap_coe, List.length_take]

lemma le_one_of_unordered (hord : b.ordered ≠ true) (hb : b.shape = .plain)
    (hdist : b.distinct = true) : (n : ℕ∞) ≤ 1 := by
  obtain rfl := bound_of_unordered h (by simp [hb])
  by_contra hone
  obtain ⟨k, rfl⟩ := exists_add_two hone
  -- a result repeated as often as the limit allows, and then another one
  have hk := congrArg List.length (h (numbers List.length) (List.replicate (k + 2) 0 ++ [1]))
  rw [cap_coe, List.take_left' (List.length_replicate)] at hk
  simp [select, outputs, numbers, hb, hdist, sorted, hord, eraseRepeats_replicate,
    eraseRepeats_replicate_append] at hk

lemma unbounded_of_aggregate (hb : b.shape = .aggregate) : L = ⊤ ∧ (n : ℕ∞) ≠ 0 := by
  have h0 := h (numbers List.length) []
  rw [select_count hb, select_count hb] at h0
  have hn : n ≠ 0 := by
    rintro rfl
    simp at h0
  refine ⟨eq_of_length_cap fun k => ?_, by exact_mod_cast hn⟩
  have hk := h (numbers List.length) (List.range k)
  rw [select_count hb, select_count hb, List.take_of_length_le (by simp; omega)] at hk
  simpa using hk.symm

lemma eq_zero_of_grouped (hb : b.shape = .grouped) : L = 0 ∧ (n : ℕ∞) = 0 := by
  obtain rfl := bound_of_unordered h (by simp [hb])
  cases n with
  | zero => exact ⟨rfl, rfl⟩
  | succ k =>
    -- one group, with one row more than the limit allows
    have hk := h (numbers List.length) (List.replicate (k + 2) 0)
    rw [cap_coe, List.take_replicate, Nat.min_eq_left (by omega),
      select_grouped_replicate hb, select_grouped_replicate hb] at hk
    simp at hk

end Unordered

theorem fits_of_limited_eq
    (h : ∀ (m : Meaning ℕ ℕ ℕ) rows, b.limited m M rows = some (b.select m (cap L rows))) :
    b.Fits L M := by
  induction M using ENat.recTopCoe with
  | top =>
    rw [Fits, if_pos rfl]
    exact eq_top_of_select_eq fun m rows => Option.some.inj (h m rows)
  | coe n =>
    rw [Fits, if_neg (ENat.natCast_ne_top n)]
    by_cases hord : b.ordered = true
    · rw [if_pos hord]
      have hlim : ∀ (m : Meaning ℕ ℕ ℕ) (rows : List ℕ), b.limited m n rows =
          if b.shape = .grouped ∨ b.qualified then none
          else some (select { b with distinct := false } m
            ((if b.distinct then eraseRepeats rows else rows).take n)) := by
        intro m rows
        change (if b.ordered then _ else _) = _
        rw [if_pos hord]
      have hok : ¬ (b.shape = .grouped ∨ b.qualified = true) := by
        intro hbad
        have hnone := h (numbers List.length) []
        rw [hlim, if_pos hbad] at hnone
        cases hnone
      have hsel : ∀ (m : Meaning ℕ ℕ ℕ) (rows : List ℕ),
          select { b with distinct := false } m
            ((if b.distinct then eraseRepeats rows else rows).take n) =
          b.select m (cap L rows) := by
        intro m rows
        have hsome := h m rows
        rw [hlim, if_neg hok] at hsome
        exact Option.some.inj hsome
      rw [not_or, Bool.not_eq_true] at hok
      exact ⟨hok.1, hok.2, bound_of_ordered hsel, le_one_of_ordered hsel hok.1⟩
    · rw [if_neg hord]
      have hlim : ∀ (m : Meaning ℕ ℕ ℕ) (rows : List ℕ),
          (b.select m rows).take n = b.select m (cap L rows) := by
        intro m rows
        have hsome := h m rows
        change (if b.ordered then _ else _) = _ at hsome
        rw [if_neg hord] at hsome
        exact Option.some.inj hsome
      cases hb : b.shape with
      | plain =>
        exact ⟨bound_of_unordered hlim (by simp [hb]), le_one_of_unordered hlim hord hb⟩
      | aggregate => exact unbounded_of_aggregate hlim hb
      | grouped => exact eq_zero_of_grouped hlim hb

end Necessary

end DbSaci.Sql.Block
