import DbSaci.Wire.NumberRoundTrip
import Mathlib.Algebra.Order.Field.Power
import Mathlib.Algebra.Order.Ring.Abs

set_option relaxedAutoImplicit false
set_option autoImplicit false

/-!
# The number that some bytes denote

A `NUMBER` is a sign, an exponent and digits to the base 100. What a text is encoded to denotes its
number, and it is encoded exactly if the number fits.

## Main definitions

* `numberValue` — the number that some bytes denote.
* `FitsNumber` — a number of at most 40 digits, neither too great nor too small.
* `Literal.Short` — a literal that does not overflow 32 bits.

## Main results

* `numberValue_encodeDigits` — what digits and a point are encoded to.
* `Literal.inRange_iff` — the range of a text is one of its number.
* `encode_literal_iff` — which texts are encoded.
-/

namespace DbSaci.Wire

open Decimal Text

/-- The number that some digits to the base 100 are, the highest first. -/
def ofPairs (ps : List ℕ) : ℕ := ps.foldl (fun n p => n * 100 + p) 0

/-- The number that some bytes denote. The complement stands for a negative one, which may end with
a byte 102. -/
def numberValue : List UInt8 → ℚ
  | [] => 0
  | exponent :: mantissa =>
    let positive : Bool := exponent &&& 0x80 ≠ 0
    let q : ℤ := (if positive then exponent else ~~~exponent).toNat - 192
    let mantissa :=
      if positive = false ∧ mantissa.getLast? = some 102 then mantissa.dropLast else mantissa
    (if positive then 1 else -1) *
      ofPairs (mantissa.map fun byte => (if positive then byte - 1 else 101 - byte).toNat) *
      100 ^ (q - mantissa.length)

/-! ### Digits and a point -/

section Digits

variable {digits : List ℕ} {decimalPoint : ℤ}

/-- Pairs of digits are the same number as the digits. -/
lemma foldl_digitPairs {k : ℕ} {ds : List ℕ} (h : ds.length = 2 * k) (n : ℕ) :
    (digitPairs k ds).foldl (fun n p => n * 100 + p) n =
      ds.foldl (fun n d => n * 10 + d) n := by
  induction k generalizing ds n with
  | zero =>
    obtain rfl := List.eq_nil_of_length_eq_zero h
    rfl
  | succ k ih =>
    match ds, h with
    | a :: b :: ds, h =>
      have hlen : ds.length = 2 * k := by
        simp only [List.length_cons] at h
        omega
      rw [digitPairs, List.foldl_cons, List.foldl_cons, List.foldl_cons, ih hlen]
      congr 1
      ring

lemma length_digitPairs {k : ℕ} {ds : List ℕ} (h : ds.length = 2 * k) :
    (digitPairs k ds).length = k := by
  induction k generalizing ds with
  | zero => rfl
  | succ k ih =>
    match ds, h with
    | a :: b :: ds, h =>
      have hlen : ds.length = 2 * k := by
        simp only [List.length_cons] at h
        omega
      rw [digitPairs, List.length_cons, ih hlen]

/-- A zero that makes the number of digits even moves the point. -/
lemma ofDigits_append_evened (a ds : List ℕ) :
    (ofDigits (a ++ evened ds) : ℚ) * 10 ^ (-((a ++ evened ds).length : ℤ)) =
      ofDigits (a ++ ds) * 10 ^ (-((a ++ ds).length : ℤ)) := by
  unfold evened
  split_ifs
  · have hten : (10 : ℚ) ≠ 0 := by decide
    have hlen : -((a ++ ds ++ [0]).length : ℤ) = -((a ++ ds).length : ℤ) - 1 := by
      rw [List.length_append, List.length_singleton]
      omega
    rw [← List.append_assoc, ofDigits_append, hlen, zpow_sub_one₀ hten, List.length_singleton,
      show ofDigits [0] = 0 from rfl]
    push_cast
    field_simp
    ring
  · rfl

/-- What the bytes of some pairs denote. -/
lemma numberValue_numberBytes {negative : Bool} {q : ℤ} {pairs : List ℕ} (hq : -64 ≤ q ∧ q ≤ 63)
    (hpairs : ∀ p ∈ pairs, p < 100) : numberValue (numberBytes negative q pairs) =
      (if negative then -1 else 1) * ofPairs pairs * 100 ^ (q - pairs.length) := by
  obtain ⟨mantissa, hbytes, hmantissa⟩ := @numberBytes_mantissa negative q pairs hpairs
  obtain ⟨hsign, hexp⟩ := @exponentByte_back negative q hq
  have hback : (pairs.map (pairByte negative)).map
      (fun byte => (if !negative then byte - 1 else 101 - byte).toNat) = pairs := by
    rw [List.map_map]
    refine (List.map_congr_left fun p hp => ?_).trans (List.map_id pairs)
    exact pairByte_back (hpairs p hp)
  rw [hbytes, numberValue, hsign, hmantissa, hback, hexp, List.length_map, add_sub_cancel_right]
  cases negative <;> rfl

lemma hundred_zpow (n : ℤ) : (100 : ℚ) ^ n = 10 ^ (2 * n) := by
  rw [zpow_mul]
  norm_num

/-- The digits that are sent may have a zero behind those of the number. -/
lemma numberValue_sent {negative : Bool} {q : ℤ} {pairs a b : List ℕ} (hq : -64 ≤ q ∧ q ≤ 63)
    (hpairs : ∀ p ∈ pairs, p < 100) (hsent : ofPairs pairs = ofDigits (a ++ evened b))
    (hlen : 2 * (q - pairs.length) = decimalPoint - (a ++ evened b).length) :
    numberValue (numberBytes negative q pairs) = (if negative then -1 else 1) *
      ofDigits (a ++ b) * 10 ^ (decimalPoint - (a ++ b).length) := by
  have hten : (10 : ℚ) ≠ 0 := by decide
  rw [numberValue_numberBytes hq hpairs, hundred_zpow, hsent, hlen, sub_eq_add_neg,
    sub_eq_add_neg, zpow_add₀ hten, zpow_add₀ hten, mul_assoc, mul_assoc,
    mul_left_comm (ofDigits _ : ℚ), mul_left_comm (ofDigits _ : ℚ), ofDigits_append_evened]

/-- **What digits and a point are encoded to denotes their number.** -/
theorem numberValue_encodeDigits (h : Normal digits decimalPoint) (negative : Bool) :
    numberValue (encodeDigits negative digits decimalPoint) =
      (if negative then -1 else 1) * ofDigits digits * 10 ^ (decimalPoint - digits.length) := by
  obtain ⟨d, ds, hds, hd⟩ := h.first
  have hpoint := h.point_mem
  have hlt : ∀ c ∈ d :: ds, c < 10 := hds ▸ h.digit
  rw [encodeDigits_eq]
  by_cases hodd : decimalPoint.tmod 2 ≠ 0
  · obtain ⟨q, hq⟩ : ∃ q, decimalPoint + 1 = 2 * q := ⟨(decimalPoint + 1) / 2, by
      rcases Int.emod_two_eq_zero_or_one decimalPoint with heven | hodd'
      · exact absurd (Int.tmod_eq_zero_of_dvd (Int.dvd_of_emod_eq_zero heven)) hodd
      · omega⟩
    have hlen := length_evened ds
    have hevened := evened_lt fun c hc => hlt c (List.mem_cons_of_mem d hc)
    rw [if_pos hodd, hq, Int.mul_tdiv_cancel_left _ (by decide), hds, basePairs_true]
    refine numberValue_sent (a := [d]) (b := ds) (by omega) ?_ ?_ ?_
    · exact List.forall_mem_cons.2 ⟨(hlt d List.mem_cons_self).trans (by decide),
        digitPairs_lt hevened⟩
    · rw [ofPairs, List.foldl_cons, foldl_digitPairs hlen, ofDigits, List.singleton_append,
        List.foldl_cons, Nat.zero_mul]
    · rw [List.length_cons, length_digitPairs hlen, List.length_append, List.length_singleton]
      omega
  · obtain ⟨q, hq⟩ := Int.dvd_of_tmod_eq_zero (not_not.1 hodd)
    have hlen := length_evened digits
    rw [if_neg hodd, hq, Int.mul_tdiv_cancel_left _ (by decide)]
    refine numberValue_sent (a := []) (b := digits) (by omega) ?_ ?_ ?_
    · exact digitPairs_lt (evened_lt h.digit)
    · exact foldl_digitPairs hlen 0
    · have hpairs : (basePairs false (evened digits)).length = (evened digits).length / 2 :=
        length_digitPairs hlen
      rw [hpairs, List.nil_append]
      omega

end Digits

/-! ### Numbers that fit -/

/-- A number of at most 40 digits, neither too great nor too small. -/
def FitsNumber (v : ℚ) : Prop :=
  v = 0 ∨ 10 ^ (-130 : ℤ) ≤ |v| ∧ |v| < 10 ^ (126 : ℤ) ∧
    ∃ m e : ℤ, |m| < 10 ^ 40 ∧ v = m * 10 ^ e

section Range

lemma ofDigits_lt {ds : List ℕ} (h : ∀ d ∈ ds, d < 10) : ofDigits ds < 10 ^ ds.length := by
  induction ds using List.reverseRecOn with
  | nil => exact Nat.one_pos
  | append_singleton ds d ih =>
    have hd : d < 10 := h d (List.mem_append_right _ (List.mem_singleton_self d))
    have ih := ih fun c hc => h c (List.mem_append_left _ hc)
    have hone : ofDigits [d] = d := Nat.zero_add d
    rw [ofDigits_append, List.length_append, List.length_singleton, hone, pow_succ]
    omega

lemma le_ofDigits {d : ℕ} (hd : d ≠ 0) (ds : List ℕ) : 10 ^ ds.length ≤ ofDigits (d :: ds) := by
  have hone : ofDigits [d] = d := Nat.zero_add d
  rw [← List.singleton_append, ofDigits_append, hone]
  exact (Nat.le_mul_of_pos_left _ (Nat.pos_of_ne_zero hd)).trans (Nat.le_add_right _ _)

lemma not_dvd_ofDigits {ds : List ℕ} (hne : ds ≠ []) (hlt : ∀ d ∈ ds, d < 10)
    (h : ∀ d ∈ ds.getLast?, d ≠ 0) : ¬ 10 ∣ ofDigits ds := by
  have hlast := List.dropLast_concat_getLast hne
  have hd := h _ (List.getLast?_eq_some_getLast hne)
  have hten := hlt _ (List.getLast_mem hne)
  have hone : ofDigits [ds.getLast hne] = ds.getLast hne := Nat.zero_add _
  rw [← hlast, ofDigits_append, hone, List.length_singleton]
  omega

/-- A number that does not end with a zero is not greater than one it differs from by zeros. -/
lemma le_of_mul_zpow_eq {M n : ℕ} {a b : ℤ} (hndvd : ¬ 10 ∣ M)
    (h : (M : ℚ) * 10 ^ a = n * 10 ^ b) : M ≤ n := by
  have hne : (10 : ℚ) ≠ 0 := by norm_num
  have hb := zpow_ne_zero b hne
  have ha := zpow_ne_zero a hne
  rcases le_or_gt b a with hle | hlt
  · obtain ⟨j, rfl⟩ := Int.le.dest hle
    rw [zpow_add₀ hne, zpow_natCast, mul_left_comm, mul_comm (n : ℚ), mul_right_inj' hb] at h
    have hmul : M * 10 ^ j = n := by exact_mod_cast h
    rw [← hmul]
    exact Nat.le_mul_of_pos_right _ (Nat.pow_pos (by decide))
  · obtain ⟨j, rfl⟩ := Int.lt.dest hlt
    rw [zpow_add₀ hne, zpow_natCast, mul_left_comm, mul_comm (M : ℚ), mul_right_inj' ha] at h
    have hmul : M = n * 10 ^ (j + 1) := by exact_mod_cast h
    exact absurd ⟨n * 10 ^ j, by rw [hmul]; ring⟩ hndvd

/-- Digits without a zero at either end fit if they are not too many and their point is in
range. -/
lemma fitsNumber_iff {k M : ℕ} {P : ℤ} {σ : ℚ} (hσ : |σ| = 1) (hk : 1 ≤ k)
    (hlower : 10 ^ (k - 1) ≤ M) (hupper : M < 10 ^ k) (hndvd : ¬ 10 ∣ M) :
    FitsNumber (σ * M * 10 ^ (P - k)) ↔ k ≤ 40 ∧ -129 ≤ P ∧ P ≤ 126 := by
  have hten : (1 : ℚ) < 10 := by norm_num
  have hne : (10 : ℚ) ≠ 0 := by norm_num
  have hpos : (0 : ℚ) < 10 ^ (P - k) := zpow_pos (by norm_num) _
  have habs : |σ * M * 10 ^ (P - k)| = M * 10 ^ (P - k) := by
    rw [abs_mul, abs_mul, hσ, one_mul, abs_of_pos hpos, Nat.abs_cast]
  have hlow : (10 : ℚ) ^ (P - 1) ≤ M * 10 ^ (P - k) := by
    have hsplit : (10 : ℚ) ^ (P - 1) = 10 ^ (k - 1) * 10 ^ (P - k) := by
      rw [← zpow_natCast, ← zpow_add₀ hne]
      congr 1
      omega
    rw [hsplit]
    exact mul_le_mul_of_nonneg_right (by exact_mod_cast hlower) hpos.le
  have hhigh : (M : ℚ) * 10 ^ (P - k) < 10 ^ P := by
    have hsplit : (10 : ℚ) ^ P = 10 ^ k * 10 ^ (P - k) := by
      rw [← zpow_natCast, ← zpow_add₀ hne]
      congr 1
      omega
    rw [hsplit]
    exact mul_lt_mul_of_pos_right (by exact_mod_cast hupper) hpos
  rw [FitsNumber, habs]
  constructor
  · rintro (hzero | ⟨hsmall, hgreat, m, e, hm, hv⟩)
    · have hnone := habs.symm.trans (by rw [hzero, abs_zero])
      have hP : (0 : ℚ) < 10 ^ (P - 1) := zpow_pos (by norm_num) _
      rw [hnone] at hlow
      exact absurd hlow (not_le.2 hP)
    · have hP := (zpow_lt_zpow_iff_right₀ hten).1 (hsmall.trans_lt hhigh)
      have hP' := (zpow_lt_zpow_iff_right₀ hten).1 (hlow.trans_lt hgreat)
      refine ⟨?_, by omega, by omega⟩
      have heq : (M : ℚ) * 10 ^ (P - k) = m.natAbs * 10 ^ e := by
        rw [← habs, hv, abs_mul, abs_of_pos (zpow_pos (by norm_num : (0 : ℚ) < 10) e),
          Nat.cast_natAbs, Int.cast_abs]
      have hm : m.natAbs < 10 ^ 40 := by
        rw [Int.abs_eq_natAbs] at hm
        exact_mod_cast hm
      have hM := le_of_mul_zpow_eq hndvd heq
      have hlt := (Nat.pow_lt_pow_iff_right (by decide)).1 ((hlower.trans hM).trans_lt hm)
      omega
  · rintro ⟨hlen, hP⟩
    refine .inr ⟨?_, ?_, ?_⟩
    · exact ((zpow_le_zpow_iff_right₀ hten).2 (by omega)).trans hlow
    · exact hhigh.trans_le ((zpow_le_zpow_iff_right₀ hten).2 hP.2)
    · have hM : M < 10 ^ 40 := hupper.trans_le (Nat.pow_le_pow_right (by decide) hlen)
      rcases eq_or_eq_neg_of_abs_eq hσ with rfl | rfl
      · exact ⟨M, P - k, by rw [Nat.abs_cast]; exact_mod_cast hM, by simp⟩
      · exact ⟨-M, P - k, by rw [abs_neg, Nat.abs_cast]; exact_mod_cast hM, by simp⟩

/-- **The range of a text is one of its number.** -/
theorem Literal.inRange_iff (l : Literal) : l.InRange ↔ FitsNumber l.value := by
  rw [Literal.InRange, Literal.value_eq]
  by_cases hzero : l.significant = []
  · rw [hzero]
    exact iff_of_true ⟨Nat.zero_le _, fun h => absurd rfl h⟩ (.inl (by simp [ofDigits]))
  · obtain ⟨hlt, ⟨d, ds, hds, hd⟩, hlast⟩ := significant_digits (mantissa_digits l) hzero
    have hlower : 10 ^ (l.significant.length - 1) ≤ ofDigits l.significant := by
      rw [hds]
      exact le_ofDigits hd ds
    have hsign : |(if l.sign = ['-'] then (-1 : ℚ) else 1)| = 1 := by
      split_ifs <;> simp
    rw [fitsNumber_iff hsign (List.length_pos_iff.2 hzero) hlower (ofDigits_lt hlt)
      (not_dvd_ofDigits hzero hlt hlast)]
    exact and_congr_right fun _ => forall_prop_of_true hzero

end Range

/-! ### Texts with few digits -/

/-- A literal without too many digits or too great an exponent for 32 bits. -/
structure Literal.Short (l : Literal) : Prop where
  exponent : l.exponent? = some l.exponent
  exponent_mem : -2 ^ 30 < l.exponent ∧ l.exponent < 2 ^ 30
  int : l.int.length < 2 ^ 30
  frac : (l.frac.getD []).length < 2 ^ 30

section Short

variable {l : Literal}

/-- A literal without an exponent. -/
lemma Literal.Short.of_plain (hexp : l.exp = none) (hint : l.int.length < 2 ^ 30)
    (hfrac : (l.frac.getD []).length < 2 ^ 30) : l.Short := by
  have hzero : l.exponent = 0 := by
    rw [Literal.exponent, hexp]
    rfl
  refine ⟨?_, ?_, hint, hfrac⟩
  · rw [hzero, Parts.exponent?, hexp]
    rfl
  · rw [hzero]
    decide

/-- The point of such a text stays in 32 bits, with its exponent and without. -/
lemma point32_short (h : l.Short) :
    l.point32 + l.exponent = l.point ∧ InI32 l.point32 ∧ InI32 (l.point32 + l.exponent) := by
  obtain ⟨-, hexp, hint, hfrac⟩ := h
  have hlen : l.intDigits.length ≤ l.int.length := by
    have := (List.dropWhile_suffix (l := l.int.map digitVal) (· = 0)).length_le
    rwa [List.length_map] at this
  have hzeros : l.fracZeros ≤ (l.frac.getD []).length := by
    have htake := (List.takeWhile_prefix (l := l.frac.getD []) Char.isDigit).length_le
    have hdrop := (List.takeWhile_prefix
      (l := ((l.frac.getD []).takeWhile Char.isDigit).map digitVal) (· = 0)).length_le
    rw [List.length_map] at hdrop
    rw [Parts.fracZeros, leadingZeros]
    split_ifs
    · omega
    · exact Nat.zero_le _
  have hpoint := point32_eq (l := l) (by omega)
  have heq := point_eq l
  rw [InI32, InI32]
  exact ⟨hpoint, by omega, by omega⟩

/-- Such a text is encoded if it is in range. -/
lemma encode_short (h : l.Short) (bytes : List UInt8) :
    encodeOracleNumberDecimal l.text = .ok bytes ↔
      l.InRange ∧ bytes = l.toParts.bytes l.exponent := by
  have hne : trim l.text ≠ [] := by
    rw [l.trim_text]
    intro hnil
    refine l.mantissa_ok ?_
    rw [← l.partsOf_text, hnil]
    rfl
  obtain ⟨hpoint, hmem, hsum⟩ := point32_short h
  have haccepted : l.toParts.Accepted l.exponent ↔ l.InRange := by
    rw [Parts.Accepted, Literal.InRange, hpoint]
    by_cases hsig : l.significant = []
    · simp [hsig, l.rest_ok]
    · simp [hsig, l.rest_ok]
  rw [encode_eq _ hne, l.trim_text, l.partsOf_text]
  constructor
  · intro hok
    obtain ⟨e, he, hacc, rfl⟩ := Parts.accepted_of_encode hok
    obtain rfl := Option.some.inj (h.exponent.symm.trans he)
    exact ⟨haccepted.1 hacc, rfl⟩
  · rintro ⟨hrange, rfl⟩
    exact Parts.encode_of_accepted hmem h.exponent hsum (haccepted.2 hrange)

lemma numberBytes_ne_nil (negative : Bool) (q : ℤ) (pairs : List ℕ) :
    numberBytes negative q pairs ≠ [] := by
  unfold numberBytes
  dsimp only
  split_ifs
  · exact List.append_ne_nil_of_right_ne_nil _ (List.cons_ne_nil _ _)
  · exact List.cons_ne_nil _ _

lemma bytes_ne_nil (p : Parts) (e : ℤ) : p.bytes e ≠ [] := by
  rw [Parts.bytes, encodeDigits_eq]
  split_ifs
  · exact List.cons_ne_nil _ _
  · exact numberBytes_ne_nil _ _ _
  · exact numberBytes_ne_nil _ _ _

/-- The bytes of a text in range denote its number. -/
lemma numberValue_bytes {e : ℤ} (hpoint : l.point32 + e = l.point) (h : l.InRange) :
    numberValue (l.toParts.bytes e) = l.value := by
  rw [Literal.value_eq, Parts.bytes]
  by_cases hzero : l.significant = []
  · rw [if_pos hzero, hzero]
    simp [numberValue, ofPairs, ofDigits]
  · have hnormal := normal_significant (mantissa_digits l) hzero h.1 (h.2 hzero)
    rw [if_neg hzero, hpoint, numberValue_encodeDigits hnormal]
    by_cases hs : l.sign = ['-'] <;> simp [hs]

/-- **A text with few digits is encoded exactly if its number fits, and the bytes denote its
number.** -/
theorem encode_literal_iff (h : l.Short) (v : ℚ) :
    (∃ bytes, encodeOracleNumberDecimal l.text = .ok bytes ∧ numberValue bytes = v) ↔
      FitsNumber l.value ∧ l.value = v := by
  have hpoint := (point32_short h).1
  rw [← Literal.inRange_iff]
  constructor
  · rintro ⟨bytes, hbytes, rfl⟩
    obtain ⟨hrange, rfl⟩ := (encode_short h bytes).1 hbytes
    exact ⟨hrange, (numberValue_bytes hpoint hrange).symm⟩
  · rintro ⟨hrange, rfl⟩
    exact ⟨_, (encode_short h _).2 ⟨hrange, rfl⟩, numberValue_bytes hpoint hrange⟩

end Short

end DbSaci.Wire
