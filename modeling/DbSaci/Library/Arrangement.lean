import Mathlib.Data.List.Perm.Subperm
import Mathlib.Data.List.Sort

set_option relaxedAutoImplicit false
set_option autoImplicit false

/-!
# Sorted arrangements

A result that has to be sorted is any arrangement of its records in which each comes before those
that are not less. An order that sorts by several comparisons takes the later ones for the records
the earlier ones do not tell apart.

## Main definitions

* `Arrangement` — a sorted arrangement of records.
* `lexLe` — one comparison after the other.
* `nullsLast`, `nullsFirst`, `nullRank` — values with `NULL`.

## Main results

* `forall_arrangement_iff` — when all arrangements are sorted in another order, too.
* `lexLe_total`, `lexLe_trans` — comparisons one after the other are an order.
* `lexLe_nullRank` — first whether a value is `NULL`, then the value, puts `NULL` last.
-/

namespace Sorting

variable {ρ V : Type}

/-- A comparison is total and transitive. -/
structure Order (le : ρ → ρ → Bool) : Prop where
  total : ∀ x y, le x y = true ∨ le y x = true
  trans : ∀ x y z, le x y = true → le y z = true → le x z = true

/-- A sorted arrangement of records. -/
def Arrangement (le : ρ → ρ → Bool) (records arranged : List ρ) : Prop :=
  arranged.Perm records ∧ arranged.Pairwise fun x y => le x y = true

section Arrangements

variable {le le' : ρ → ρ → Bool} {records : List ρ}

/-- Sorting gives an arrangement. -/
lemma arrangement_mergeSort (h : Order le) (records : List ρ) :
    Arrangement le records (records.mergeSort le) := by
  refine ⟨List.mergeSort_perm records le, ?_⟩
  apply List.pairwise_mergeSort h.trans
  intro x y
  rw [Bool.or_eq_true]
  exact h.total x y

/-- **All arrangements are sorted in another order, too**, exactly if it does not tell two records
apart that may stand in either order. -/
theorem forall_arrangement_iff (h : Order le) :
    (∀ arranged, Arrangement le records arranged →
      arranged.Pairwise fun x y => le' x y = true) ↔
    ∀ x y, List.Subperm [x, y] records → le x y = true → le' x y = true := by
  constructor
  · intro hall x y hxy hle
    obtain ⟨l, hl, hsub⟩ := List.subperm_iff.1 hxy
    obtain ⟨hperm, hsorted⟩ := arrangement_mergeSort h l
    have htotal : ∀ x y, (le x y || le y x) = true := by
      intro x y
      rw [Bool.or_eq_true]
      exact h.total x y
    have hpair := List.pair_sublist_mergeSort h.trans htotal hle hsub
    exact List.pairwise_iff_forall_sublist.1 (hall _ ⟨hperm.trans hl, hsorted⟩) hpair
  · rintro hpairs arranged ⟨hperm, hsorted⟩
    rw [List.pairwise_iff_forall_sublist] at hsorted ⊢
    intro x y hxy
    apply hpairs x y (hxy.subperm.trans hperm.subperm)
    exact hsorted hxy

end Arrangements

/-! ### One comparison after the other -/

/-- Compare by one comparison after the other. -/
def lexLe : List (ρ → ρ → Bool) → ρ → ρ → Bool
  | [], _, _ => true
  | le :: rest, x, y => le x y && (!le y x || lexLe rest x y)

section Lex

variable {les : List (ρ → ρ → Bool)} (h : ∀ le ∈ les, Order le)

include h in
lemma lexLe_total (x y : ρ) : lexLe les x y = true ∨ lexLe les y x = true := by
  induction les with
  | nil => exact .inl rfl
  | cons le rest ih =>
    have hle := (h le List.mem_cons_self).total x y
    have ih := ih fun le' hle' => h le' (List.mem_cons_of_mem le hle')
    simp only [lexLe, Bool.and_eq_true, Bool.or_eq_true, Bool.not_eq_true']
    by_cases hxy : le x y = true
    · by_cases hyx : le y x = true
      · exact ih.imp (fun hlex => ⟨hxy, .inr hlex⟩) fun hlex => ⟨hyx, .inr hlex⟩
      · exact .inl ⟨hxy, .inl (Bool.not_eq_true _ ▸ hyx)⟩
    · exact .inr ⟨hle.resolve_left hxy, .inl (Bool.not_eq_true _ ▸ hxy)⟩

include h in
lemma lexLe_trans (x y z : ρ) (hxy : lexLe les x y = true) (hyz : lexLe les y z = true) :
    lexLe les x z = true := by
  induction les with
  | nil => rfl
  | cons le rest ih =>
    have hle := h le List.mem_cons_self
    have ih := ih fun le' hle' => h le' (List.mem_cons_of_mem le hle')
    simp only [lexLe, Bool.and_eq_true, Bool.or_eq_true, Bool.not_eq_true'] at hxy hyz ⊢
    obtain ⟨hxy, hxy'⟩ := hxy
    obtain ⟨hyz, hyz'⟩ := hyz
    refine ⟨hle.trans x y z hxy hyz, ?_⟩
    by_cases hzx : le z x = true
    · -- the three records are not told apart
      have hyx := hle.trans y z x hyz hzx
      have hzy := hle.trans z x y hzx hxy
      rw [hyx] at hxy'
      rw [hzy] at hyz'
      exact .inr (ih (hxy'.resolve_left (by decide)) (hyz'.resolve_left (by decide)))
    · exact .inl (Bool.not_eq_true _ ▸ hzx)

include h in
/-- **Comparisons one after the other are an order.** -/
theorem order_lexLe : Order (lexLe les) := ⟨lexLe_total h, lexLe_trans h⟩

end Lex

/-! ### Values with `NULL` -/

section Nulls

variable (isNull : V → Bool) (le : V → V → Bool)

/-- `NULL` is greater than all values. -/
def nullsLast (v w : V) : Bool := isNull w || (!isNull v && le v w)

/-- `NULL` is less than all values. -/
def nullsFirst (v w : V) : Bool := isNull v || (!isNull w && le v w)

/-- Whether a value is `NULL`, false before true. -/
def nullRank (v w : V) : Bool := !isNull v || isNull w

variable {isNull le} (h : Order le)

include h in
lemma order_nullsLast : Order (nullsLast isNull le) where
  total v w := by
    have := h.total v w
    simp only [nullsLast]
    cases isNull v <;> cases isNull w <;> simp_all
  trans u v w := by
    have := h.trans u v w
    simp only [nullsLast]
    cases isNull u <;> cases isNull v <;> cases isNull w <;> simp_all

/-- The comparison of records by a value of theirs. -/
def comparing (f : ρ → V) (le : V → V → Bool) (x y : ρ) : Bool := le (f x) (f y)

lemma Order.comparing {le : V → V → Bool} (h : Order le) (f : ρ → V) :
    Order (comparing f le) :=
  ⟨fun x y => h.total (f x) (f y), fun x y z => h.trans (f x) (f y) (f z)⟩

/-- **First whether a value is `NULL`, then the value**, puts `NULL` last. -/
theorem lexLe_nullRank (f : ρ → V) (rest : List (ρ → ρ → Bool)) :
    lexLe (comparing f (nullRank isNull) :: comparing f (nullsFirst isNull le) :: rest) =
      lexLe (comparing f (nullsLast isNull le) :: rest) := by
  funext x y
  simp only [lexLe, Sorting.comparing, nullRank, nullsFirst, nullsLast]
  cases isNull (f x) <;> cases isNull (f y) <;> simp

end Nulls

end Sorting
