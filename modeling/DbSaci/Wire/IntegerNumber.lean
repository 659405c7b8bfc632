import DbSaci.Library.Utf8
import DbSaci.Wire.NumberValue

set_option relaxedAutoImplicit false
set_option autoImplicit false

/-!
# Integers as `NUMBER`

An integer is a literal without a fraction, which may have leading zeros. What the number of such a
literal is encoded to is not the text of a number.

## Main definitions

* `intLiteral` — an integer with leading zeros.

## Main results

* `intLiteral_value`, `intLiteral_text` — its number and its text.
* `bytes_ne_text` — the bytes of a number are no text of a number.
-/

namespace DbSaci.Wire

open Decimal Text

/-! ### Integers -/

/-- An integer with leading zeros, as a literal. -/
def intLiteral (zeros : ℕ) (n : ℤ) : Literal where
  sign := if n < 0 then ['-'] else []
  int := List.replicate zeros '0' ++ Nat.toDigits 10 n.natAbs
  frac := none
  exp := none
  rest := []
  sign_ok := by
    split_ifs
    · exact .inr (.inl rfl)
    · exact .inl rfl
  int_ok := by
    intro c hc
    rcases List.mem_append.1 hc with hzero | hdigit
    · rw [List.eq_of_mem_replicate hzero]
      rfl
    · exact Nat.isDigit_of_mem_toDigits (by decide) (by decide) hdigit
  frac_ok := frac_ok_none
  exp_ok := exp_ok_none
  rest_ok := rest_ok_nil
  mantissa_ok := List.append_ne_nil_of_left_ne_nil
    (List.append_ne_nil_of_right_ne_nil _ Nat.toDigits_ne_nil) _

lemma intLiteral_value (zeros : ℕ) (n : ℤ) : (intLiteral zeros n).value = n := by
  have hmantissa : Nat.ofDigitChars 10 (intLiteral zeros n).mantissa 0 = n.natAbs := by
    show Nat.ofDigitChars 10 ((List.replicate zeros '0' ++ Nat.toDigits 10 n.natAbs) ++ []) 0 = _
    rw [List.append_nil, Nat.ofDigitChars_append, Nat.ofDigitChars_replicate_zero, Nat.mul_zero,
      Nat.ofDigitChars_ten_toDigits]
  have hsign : (if (intLiteral zeros n).sign = ['-'] then (-1 : ℚ) else 1) =
      if n < 0 then -1 else 1 := by
    by_cases hn : n < 0 <;> simp [intLiteral, hn]
  have hshift : (intLiteral zeros n).exponent -
      (((intLiteral zeros n).frac.getD []).length : ℤ) = 0 := rfl
  rw [Literal.value, hmantissa, hsign, hshift, zpow_zero, mul_one]
  split_ifs with hn
  · rw [Nat.cast_natAbs, abs_of_neg hn, Int.cast_neg]
    ring
  · rw [Nat.cast_natAbs, abs_of_nonneg (not_lt.1 hn), one_mul]

/-- Its text without leading zeros is that of the integer. -/
lemma intLiteral_text (n : ℤ) : (intLiteral 0 n).text = (toString n).toList := by
  have htext : (intLiteral 0 n).text =
      (if n < 0 then ['-'] else []) ++ Nat.toDigits 10 n.natAbs := by
    show (if n < 0 then ['-'] else []) ++ (Nat.toDigits 10 n.natAbs ++ []) = _
    rw [List.append_nil]
  rw [htext, Int.toString_eq_repr, Int.repr_eq_if]
  by_cases hn : n < 0
  · rw [if_pos hn, if_neg (not_le.2 hn), String.toList_append, Nat.repr_eq_ofList_toDigits,
      show (-n).toNat = n.natAbs by omega]
    simp
  · rw [if_neg hn, if_pos (not_lt.1 hn), Nat.repr_eq_ofList_toDigits, String.toList_ofList,
      show n.toNat = n.natAbs by omega]
    rfl

lemma natLiteral_text (n : ℕ) : (intLiteral 0 n).text = (toString n).toList := by
  rw [intLiteral_text, Int.toString_eq_repr, Int.repr_eq_if, if_pos (by omega), Int.toNat_natCast]
  rfl

lemma intLiteral_short {zeros : ℕ} {n : ℤ} (hzeros : zeros < 256) (hn : n.natAbs < 2 ^ 64) :
    (intLiteral zeros n).Short := by
  have hlen := (Nat.length_toDigits_le_iff (b := 10) (k := 20) (by decide) (by decide)).2
    (hn.trans (by decide))
  refine .of_plain rfl ?_ (Nat.two_pow_pos 30)
  show (List.replicate zeros '0' ++ Nat.toDigits 10 n.natAbs).length < _
  rw [List.length_append, List.length_replicate]
  omega

/-- Its leading zeros do not count. -/
lemma length_significant_intLiteral {zeros : ℕ} {n : ℤ} (hn : n.natAbs < 2 ^ 64) :
    (intLiteral zeros n).significant.length ≤ 20 := by
  have hlen := (Nat.length_toDigits_le_iff (b := 10) (k := 20) (by decide) (by decide)).2
    (hn.trans (by decide))
  have hmantissa : (intLiteral zeros n).mantissa.map digitVal =
      List.replicate zeros 0 ++ (Nat.toDigits 10 n.natAbs).map digitVal := by
    show ((List.replicate zeros '0' ++ Nat.toDigits 10 n.natAbs) ++ []).map digitVal = _
    rw [List.append_nil, List.map_append, List.map_replicate]
    rfl
  have hzeros : ∀ d ∈ List.replicate zeros 0, decide (d = 0) = true := by
    intro d hd
    exact decide_eq_true (List.eq_of_mem_replicate hd)
  have hleading := (List.rdropWhile_prefix (fun d : ℕ => decide (d = 0))
    ((intLiteral zeros n).mantissa.map digitVal |>.dropWhile (· = 0))).length_le
  rw [hmantissa, List.dropWhile_append_of_pos hzeros] at hleading
  have htrailing := (List.dropWhile_suffix (l := (Nat.toDigits 10 n.natAbs).map digitVal)
    (fun d : ℕ => decide (d = 0))).length_le
  rw [List.length_map] at htrailing
  rw [Parts.significant, hmantissa, List.dropWhile_append_of_pos hzeros]
  omega

/-! ### The bytes of a number are no text -/

lemma length_digitPairs_le (k : ℕ) (ds : List ℕ) : (digitPairs k ds).length ≤ k := by
  induction k generalizing ds with
  | zero => exact Nat.le_refl 0
  | succ k ih =>
    match ds with
    | [] => exact Nat.zero_le _
    | [_] => exact Nat.zero_le _
    | a :: b :: ds =>
      rw [digitPairs, List.length_cons]
      exact Nat.succ_le_succ (ih ds)

lemma length_basePairs_le (zero : Bool) (ds : List ℕ) :
    (basePairs zero ds).length ≤ ds.length / 2 + 1 := by
  cases zero with
  | false => exact (length_digitPairs_le _ ds).trans (Nat.le_succ _)
  | true =>
    cases ds with
    | nil => exact Nat.zero_le _
    | cons d ds =>
      have hle := length_digitPairs_le ((d :: ds).length / 2 - 1) ds
      rw [basePairs, List.length_cons]
      omega

lemma length_evened_le (ds : List ℕ) : (evened ds).length ≤ ds.length + 1 := by
  unfold evened
  split_ifs
  · rw [List.length_append, List.length_singleton]
  · exact Nat.le_succ _

/-- A number starts with a byte above those of letters, and a negative one ends with the letter
`f`, if it is not too long. -/
lemma exists_mem_numberBytes {negative : Bool} {q : ℤ} {pairs : List ℕ} (hq : -64 ≤ q ∧ q ≤ 63)
    (hlen : pairs.length < 20) :
    ∃ b ∈ numberBytes negative q pairs, 0x80 ≤ b.toNat ∨ b = 102 := by
  have hexp := (@exponentByte_back negative q hq).2
  unfold numberBytes
  cases negative with
  | false =>
    refine ⟨exponentByte false q, List.mem_cons_self, .inl ?_⟩
    have hbyte : ((exponentByte false q).toNat : ℤ) = q + 192 := hexp
    omega
  | true =>
    refine ⟨102, ?_, .inr rfl⟩
    have hshort : (exponentByte true q :: pairs.map (pairByte true)).length < 21 := by
      rw [List.length_cons, List.length_map]
      omega
    dsimp only
    rw [decide_eq_true hshort, Bool.true_and, if_pos rfl]
    exact List.mem_append_right _ (List.mem_singleton_self _)

/-- Half of an exponent is one to the base 100. -/
lemma tdiv_two_mem {p : ℤ} (h : -129 ≤ p ∧ p ≤ 127) : -64 ≤ p.tdiv 2 ∧ p.tdiv 2 ≤ 63 := by
  obtain ⟨n, rfl | rfl⟩ := p.eq_nat_or_neg
  · rw [Int.tdiv_eq_ediv_of_nonneg (by omega)]
    omega
  · rw [Int.neg_tdiv, Int.tdiv_eq_ediv_of_nonneg (by omega)]
    omega

lemma exists_mem_bytes {l : Literal} (h : l.InRange) (hlen : l.significant.length ≤ 30) {e : ℤ}
    (hpoint : l.point32 + e = l.point) : ∃ b ∈ l.toParts.bytes e, 0x80 ≤ b.toNat ∨ b = 102 := by
  rw [Parts.bytes, hpoint]
  by_cases hzero : l.significant = []
  · rw [if_pos hzero]
    exact ⟨0x80, List.mem_singleton_self _, .inl (by decide)⟩
  · have hmem := h.2 hzero
    rw [if_neg hzero, encodeDigits_eq]
    split_ifs
    · have hpairs := length_basePairs_le true (evened (l.significant ++ [0]))
      have hevened := length_evened_le (l.significant ++ [0])
      rw [List.length_append, List.length_singleton] at hevened
      exact exists_mem_numberBytes (tdiv_two_mem (by omega)) (by omega)
    · have hpairs := length_basePairs_le false (evened l.significant)
      have hevened := length_evened_le l.significant
      exact exists_mem_numberBytes (tdiv_two_mem (by omega)) (by omega)

/-- The bytes of the text of a literal. -/
lemma mem_utf8Encode_text {l : Literal} {b : UInt8} (h : b ∈ utf8Encode l.text) :
    b.toNat < 0x80 ∧ b ≠ 102 := by
  obtain ⟨c, hc, hb⟩ := List.mem_flatMap.1 h
  have hchar : c.toNat < 0x80 ∧ UInt8.ofNat c.toNat ≠ 102 := by
    rcases Literal.mem_text hc with hdigit | hmem
    · have hle : c.toNat ≤ 57 := by
        rw [Char.isDigit, Bool.and_eq_true, decide_eq_true_eq, decide_eq_true_eq] at hdigit
        exact hdigit.2
      refine ⟨by omega, fun heq => ?_⟩
      have hnat := congrArg UInt8.toNat heq
      rw [UInt8.toNat_ofNat', Nat.mod_eq_of_lt (by omega)] at hnat
      exact absurd hnat (by simp; omega)
    · simp only [List.mem_cons, List.not_mem_nil, or_false] at hmem
      rcases hmem with rfl | rfl | rfl | rfl | rfl <;> decide
  rw [utf8EncodeChar_ascii hchar.1, List.mem_singleton] at hb
  rw [hb, UInt8.toNat_ofNat', Nat.mod_eq_of_lt (by omega)]
  exact hchar

/-- **The bytes of a number that is not too long are not those of a text of a number.** -/
theorem bytes_ne_text {l : Literal} (h : l.InRange) (hlen : l.significant.length ≤ 30) {e : ℤ}
    (hpoint : l.point32 + e = l.point) (l' : Literal) : l.toParts.bytes e ≠ utf8Encode l'.text := by
  intro heq
  obtain ⟨b, hb, hcases⟩ := exists_mem_bytes h hlen hpoint
  rw [heq] at hb
  obtain ⟨hlt, hne⟩ := mem_utf8Encode_text hb
  rcases hcases with hge | hletter
  · omega
  · exact hne hletter

end DbSaci.Wire
