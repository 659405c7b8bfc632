import Mathlib.Algebra.Order.Field.Rat
import Mathlib.Algebra.Order.Field.Power
import Mathlib.Order.Monotone.Basic
import Mathlib.Order.WithBot
import Mathlib.Tactic.Ring

set_option relaxedAutoImplicit false
set_option autoImplicit false

/-!
# Binary floating-point numbers

A number is its bits: a sign, an exponent and a fraction. Every finite number is a whole multiple of
the smallest one above zero, and the multiple grows with the bits behind the sign. Bits can
therefore be turned into numbers that are ordered as the values are.

## Main definitions

* `FloatFormat` — how many bits the exponent and the fraction have.
* `FloatFormat.units` — the multiple of the smallest number.
* `FloatFormat.value` — the value of bits, with the infinities.
* `FloatFormat.sorted` — the bits with the sign bit set if it was not, and complemented if it was.
* `FloatFormat.bits` — bits by their parts.

## Main results

* `FloatFormat.units_strictMono` — the multiple grows with the bits.
* `FloatFormat.value_lt_iff` — values are ordered as their signed multiples.
* `FloatFormat.sorted_lt_iff` — sorted bits are ordered as the values.
-/

namespace FloatingPoint

/-- How many bits the exponent and the fraction have. -/
structure FloatFormat where
  exponentBits : ℕ
  fractionBits : ℕ
  exponentBits_pos : 0 < exponentBits

namespace FloatFormat

variable (f : FloatFormat)

/-- The sign bit. -/
def half : ℕ := 2 ^ (f.exponentBits + f.fractionBits)

/-- The bits behind the sign. -/
def magnitude (n : ℕ) : ℕ := n % f.half

/-- The exponent. -/
def exponent (n : ℕ) : ℕ := f.magnitude n / 2 ^ f.fractionBits

/-- The fraction. -/
def fraction (n : ℕ) : ℕ := f.magnitude n % 2 ^ f.fractionBits

/-- All bits of the exponent. -/
def lastExponent : ℕ := 2 ^ f.exponentBits - 1

/-- The bits are no number. -/
def IsNan (n : ℕ) : Prop := f.exponent n = f.lastExponent ∧ f.fraction n ≠ 0

instance (n : ℕ) : Decidable (f.IsNan n) := inferInstanceAs (Decidable (_ ∧ _))

/-- The multiple of the smallest number above zero. -/
def units (g : ℕ) : ℕ :=
  if g / 2 ^ f.fractionBits = 0 then g
  else (2 ^ f.fractionBits + g % 2 ^ f.fractionBits) * 2 ^ (g / 2 ^ f.fractionBits - 1)

/-- The smallest number above zero. -/
def unit : ℚ := 2 ^ (2 - 2 ^ (f.exponentBits - 1) - f.fractionBits : ℤ)

/-- The multiple with its sign. -/
def signedUnits (n : ℕ) : ℤ :=
  if f.half ≤ n then -(f.units (f.magnitude n) : ℤ) else f.units (f.magnitude n)

/-- The value of bits that are a number. -/
def value (n : ℕ) : WithBot (WithTop ℚ) :=
  if f.exponent n = f.lastExponent then
    if f.half ≤ n then ⊥ else ((⊤ : WithTop ℚ) : WithBot (WithTop ℚ))
  else (((f.signedUnits n * f.unit : ℚ) : WithTop ℚ) : WithBot (WithTop ℚ))

/-- The sign bit is set if it was not, and all bits are complemented if it was. -/
def sorted (n : ℕ) : ℕ := if n < f.half then n + f.half else 2 * f.half - 1 - n

/-- Bits, by the sign, the exponent and the fraction. -/
def bits (negative : Bool) (x r : ℕ) : ℕ :=
  (if negative then f.half else 0) + (x * 2 ^ f.fractionBits + r)

/-! ### Multiples -/

lemma units_lt_succ (g : ℕ) : f.units g < f.units (g + 1) := by
  obtain ⟨p, hp⟩ : ∃ p, 2 ^ f.fractionBits = p + 1 :=
    Nat.exists_eq_add_one.2 (Nat.pow_pos Nat.two_pos)
  have hdiv := Nat.div_add_mod g (p + 1)
  have hmod : g % (p + 1) < p + 1 := Nat.mod_lt g (Nat.succ_pos p)
  rw [units, units, hp]
  by_cases hcarry : g % (p + 1) = p
  · -- the fraction runs over into the exponent
    have hnext : g + 1 = (p + 1) * (g / (p + 1) + 1) := by
      rw [Nat.mul_add, Nat.mul_one]
      omega
    have hquot : (g + 1) / (p + 1) = g / (p + 1) + 1 := by
      rw [hnext, Nat.mul_div_cancel_left _ (Nat.succ_pos p)]
    have hrest : (g + 1) % (p + 1) = 0 := by
      rw [hnext, Nat.mul_mod_right]
    rw [hquot, hrest, if_neg (Nat.succ_ne_zero _), Nat.add_sub_cancel, Nat.add_zero]
    split_ifs with hzero
    · rw [hzero, Nat.pow_zero, Nat.mul_one]
      rw [hzero, Nat.mul_zero, Nat.zero_add] at hdiv
      omega
    · obtain ⟨q, hq⟩ := Nat.exists_eq_succ_of_ne_zero hzero
      rw [hq, Nat.succ_sub_one, Nat.pow_succ, ← Nat.mul_assoc, Nat.mul_right_comm]
      refine Nat.mul_lt_mul_of_pos_right ?_ (Nat.pow_pos Nat.two_pos)
      omega
  · have hquot : (g + 1) / (p + 1) = g / (p + 1) := by
      rw [Nat.div_eq_of_lt_le]
      · rw [Nat.mul_comm]
        omega
      · rw [Nat.add_mul, Nat.one_mul, Nat.mul_comm]
        omega
    have hrest : (g + 1) % (p + 1) = g % (p + 1) + 1 := by
      have hdiv' := Nat.div_add_mod (g + 1) (p + 1)
      rw [hquot] at hdiv'
      omega
    rw [hquot, hrest]
    split_ifs
    · exact Nat.lt_succ_self g
    · refine Nat.mul_lt_mul_of_pos_right ?_ (Nat.pow_pos Nat.two_pos)
      omega

/-- **The multiple grows with the bits.** -/
theorem units_strictMono : StrictMono f.units := strictMono_nat_of_lt_succ f.units_lt_succ

@[simp]
lemma units_zero : f.units 0 = 0 := by
  rw [units, Nat.zero_div, if_pos rfl]

/-! ### Values -/

lemma half_pos : 0 < f.half := Nat.pow_pos Nat.two_pos

lemma unit_pos : 0 < f.unit := zpow_pos two_pos _

lemma magnitude_lt (n : ℕ) : f.magnitude n < f.half := Nat.mod_lt _ f.half_pos

lemma half_eq : f.half = (f.lastExponent + 1) * 2 ^ f.fractionBits := by
  have hpos : 1 ≤ 2 ^ f.exponentBits := Nat.pow_pos Nat.two_pos
  rw [half, lastExponent, Nat.sub_add_cancel hpos, Nat.pow_add]

/-- The bits of an infinity. -/
def infinity : ℕ := f.lastExponent * 2 ^ f.fractionBits

lemma lastExponent_pos : 0 < f.lastExponent := by
  have hlt : 1 < 2 ^ f.exponentBits := Nat.one_lt_two_pow (Nat.pos_iff_ne_zero.1 f.exponentBits_pos)
  rw [lastExponent]
  omega

/-- The multiple of an infinity is not zero. -/
lemma units_infinity_pos : 0 < f.units f.infinity := by
  have hpos : 0 < f.infinity := Nat.mul_pos f.lastExponent_pos (Nat.pow_pos Nat.two_pos)
  have hlt := f.units_strictMono hpos
  rwa [units_zero] at hlt

variable {f} {n k : ℕ}

/-- An infinity has no fraction. -/
lemma magnitude_infinite (hn : ¬ f.IsNan n) (h : f.exponent n = f.lastExponent) :
    f.magnitude n = f.infinity := by
  have hfraction : f.fraction n = 0 := by
    by_contra hne
    exact hn ⟨h, hne⟩
  have hdiv := Nat.div_add_mod (f.magnitude n) (2 ^ f.fractionBits)
  rw [← exponent, ← fraction, h, hfraction, Nat.add_zero, Nat.mul_comm] at hdiv
  rw [infinity, hdiv]

/-- A finite number is below the infinity. -/
lemma magnitude_finite (h : f.exponent n ≠ f.lastExponent) : f.magnitude n < f.infinity := by
  have hlt := f.magnitude_lt n
  rw [half_eq] at hlt
  have hexponent : f.exponent n < f.lastExponent + 1 :=
    Nat.div_lt_of_lt_mul (by rwa [Nat.mul_comm])
  rw [infinity]
  refine (Nat.div_lt_iff_lt_mul (Nat.pow_pos Nat.two_pos)).1 ?_
  exact lt_of_le_of_ne (Nat.le_of_lt_succ hexponent) h

/-- The multiple of a finite number is below that of the infinity. -/
lemma signedUnits_finite (h : f.exponent n ≠ f.lastExponent) :
    -(f.units f.infinity : ℤ) < f.signedUnits n ∧ f.signedUnits n < f.units f.infinity := by
  have hlt := f.units_strictMono (magnitude_finite h)
  rw [signedUnits]
  split_ifs <;> omega

lemma signedUnits_infinite (hn : ¬ f.IsNan n) (h : f.exponent n = f.lastExponent) :
    f.signedUnits n = if f.half ≤ n then -(f.units f.infinity : ℤ) else f.units f.infinity := by
  rw [signedUnits, magnitude_infinite hn h]

/-- **Values are ordered as their signed multiples.** -/
theorem value_lt_iff (hn : ¬ f.IsNan n) (hk : ¬ f.IsNan k) :
    f.value n < f.value k ↔ f.signedUnits n < f.signedUnits k := by
  have hlarge := f.units_infinity_pos
  rw [value, value]
  by_cases hin : f.exponent n = f.lastExponent
  · rw [if_pos hin, signedUnits_infinite hn hin]
    by_cases hik : f.exponent k = f.lastExponent
    · rw [if_pos hik, signedUnits_infinite hk hik]
      split_ifs
      · simp
      · simp only [WithBot.bot_lt_coe, true_iff]
        omega
      · simp only [not_lt_bot, false_iff]
        omega
      · simp
    · rw [if_neg hik]
      have hbounds := signedUnits_finite hik
      split_ifs
      · simp only [WithBot.bot_lt_coe, true_iff]
        omega
      · simp only [WithBot.coe_lt_coe, not_top_lt, false_iff]
        omega
  · rw [if_neg hin]
    have hbounds := signedUnits_finite hin
    by_cases hik : f.exponent k = f.lastExponent
    · rw [if_pos hik, signedUnits_infinite hk hik]
      split_ifs
      · simp only [not_lt_bot, false_iff]
        omega
      · simp only [WithBot.coe_lt_coe, WithTop.coe_lt_top, true_iff]
        omega
    · rw [if_neg hik, WithBot.coe_lt_coe, WithTop.coe_lt_coe,
        mul_lt_mul_iff_of_pos_right f.unit_pos, Int.cast_lt]

/-- **Sorted bits are ordered as the values**, with the negative zero before the other one. -/
theorem sorted_lt_iff (hn : ¬ f.IsNan n) (hk : ¬ f.IsNan k) (hnsize : n < 2 * f.half)
    (hksize : k < 2 * f.half) :
    f.sorted n < f.sorted k ↔ f.value n < f.value k ∨ n = f.half ∧ k = 0 := by
  have hmag : ∀ m, m < 2 * f.half → f.magnitude m = if f.half ≤ m then m - f.half else m := by
    intro m hm
    rw [magnitude]
    split_ifs with hle
    · rw [Nat.mod_eq_sub_mod hle, Nat.mod_eq_of_lt (by omega)]
    · exact Nat.mod_eq_of_lt (Nat.lt_of_not_le hle)
  have hmono := f.units_strictMono
  have hhalf := f.half_pos
  rw [value_lt_iff hn hk, sorted, sorted, signedUnits, signedUnits, hmag n hnsize,
    hmag k hksize]
  by_cases hnegative : f.half ≤ n
  · rw [if_neg (Nat.not_lt.2 hnegative), if_pos hnegative, if_pos hnegative]
    by_cases hnegative' : f.half ≤ k
    · -- the greater multiple is the smaller number
      rw [if_neg (Nat.not_lt.2 hnegative'), if_pos hnegative', if_pos hnegative', neg_lt_neg_iff,
        Nat.cast_lt, hmono.lt_iff_lt]
      omega
    · rw [if_pos (Nat.lt_of_not_le hnegative'), if_neg hnegative', if_neg hnegative']
      refine iff_of_true (by omega) ?_
      by_cases hzeros : n = f.half ∧ k = 0
      · exact .inr hzeros
      · left
        have hn' := hmono.le_apply (x := n - f.half)
        have hk' := hmono.le_apply (x := k)
        omega
  · rw [if_pos (Nat.lt_of_not_le hnegative), if_neg hnegative, if_neg hnegative]
    by_cases hnegative' : f.half ≤ k
    · rw [if_neg (Nat.not_lt.2 hnegative'), if_pos hnegative', if_pos hnegative']
      exact iff_of_false (by omega) (by omega)
    · rw [if_pos (Nat.lt_of_not_le hnegative'), if_neg hnegative', if_neg hnegative',
        Nat.cast_lt, hmono.lt_iff_lt]
      omega

/-! ### Bits by their parts -/

section Bits

variable {negative : Bool} {x r : ℕ} (hx : x ≤ f.lastExponent) (hr : r < 2 ^ f.fractionBits)

include hx hr

lemma bits_lt : x * 2 ^ f.fractionBits + r < f.half := by
  rw [half_eq]
  have hle := Nat.mul_le_mul_right (2 ^ f.fractionBits) hx
  rw [Nat.add_mul, Nat.one_mul]
  omega

@[simp]
lemma half_le_bits : f.half ≤ f.bits negative x r ↔ negative = true := by
  have hlt := bits_lt hx hr
  rw [bits]
  cases negative
  · simp only [Bool.false_eq_true, if_false, iff_false]
    omega
  · simp

@[simp]
lemma magnitude_bits : f.magnitude (f.bits negative x r) = x * 2 ^ f.fractionBits + r := by
  have hlt := bits_lt hx hr
  rw [magnitude, bits]
  cases negative
  · rw [if_neg Bool.false_ne_true, Nat.zero_add, Nat.mod_eq_of_lt hlt]
  · rw [if_pos rfl, Nat.add_mod_left, Nat.mod_eq_of_lt hlt]

@[simp]
lemma exponent_bits : f.exponent (f.bits negative x r) = x := by
  rw [exponent, magnitude_bits hx hr, Nat.mul_comm, Nat.mul_add_div (Nat.pow_pos Nat.two_pos),
    Nat.div_eq_of_lt hr, Nat.add_zero]

@[simp]
lemma fraction_bits : f.fraction (f.bits negative x r) = r := by
  rw [fraction, magnitude_bits hx hr, Nat.mul_comm, Nat.mul_add_mod, Nat.mod_eq_of_lt hr]

/-- The multiple, by the exponent and the fraction. -/
lemma units_bits : f.units (f.magnitude (f.bits negative x r)) =
    if x = 0 then r else (2 ^ f.fractionBits + r) * 2 ^ (x - 1) := by
  rw [units, ← exponent, ← fraction, exponent_bits hx hr, fraction_bits hx hr,
    magnitude_bits hx hr]
  split_ifs with hzero
  · rw [hzero, Nat.zero_mul, Nat.zero_add]
  · rfl

end Bits

end FloatFormat

end FloatingPoint
