import DbSaci.Wire.IntegerNumber

set_option relaxedAutoImplicit false
set_option autoImplicit false

/-!
# Two encoders of integers

An integer of 64 bits has an encoder of its own, which takes its digits in pairs from the left and
writes all of them. The encoder of decimal texts strips the zeros at the end before, so that the
same number has other bytes if it ends with a pair of zeros. Both are decoded to the same text.

## Main definitions

* `encodeOracleNumberI64` — the encoder of integers.
* `evenDigits` — the digits of a number in pairs.

## Main results

* `digitPairs_evened_rdropWhile` — stripping zeros strips the pairs of zeros.
* `decode_encodeOracleNumberI64` — what the bytes of an integer are decoded to.
* `encoders_agree_iff` — the integers that have the same bytes from both encoders.
-/

namespace DbSaci.Wire

open Decimal Text

/-! ### The encoder -/

/-- The digits of a number, with a zero in front of an odd number of them. -/
def evenDigits (n : ℕ) : List Char :=
  let decimal := Nat.toDigits 10 n
  if decimal.length % 2 ≠ 0 then '0' :: decimal else decimal

/-- `encode_oracle_number_i64`. -/
def encodeOracleNumberI64 (value : Int64) : List UInt8 :=
  if value = 0 then [0x80]
  else
    let decimal := evenDigits value.toInt.natAbs
    let digits := digitPairs (decimal.length / 2) (decimal.map digitVal)
    if 0 < value then
      (0xC0 + UInt8.ofNat digits.length) :: digits.map fun digit => UInt8.ofNat (digit + 1)
    else
      (0x3F - UInt8.ofNat digits.length) ::
        (digits.map (fun digit => UInt8.ofNat (101 - digit)) ++ [102])

/-- The text of an integer. -/
def decimalText (value : Int64) : List Char := (toString value.toInt).toList

/-! ### Pairs of zeros -/

lemma evened_cons_cons (a b : ℕ) (ds : List ℕ) : evened (a :: b :: ds) = a :: b :: evened ds := by
  unfold evened
  rw [List.length_cons, List.length_cons, Nat.add_assoc, Nat.add_mod_right]
  split_ifs <;> rfl

lemma rdropWhile_cons {α : Type} (p : α → Bool) (a : α) (s : List α) :
    (a :: s).rdropWhile p =
      if s.rdropWhile p = [] then (if p a then [] else [a]) else a :: s.rdropWhile p := by
  induction s using List.reverseRecOn with
  | nil =>
    rw [List.rdropWhile_nil, if_pos rfl]
    exact List.rdropWhile_singleton p a
  | append_singleton s b ih =>
    rw [← List.cons_append]
    by_cases hb : p b = true
    · rw [List.rdropWhile_concat_pos _ _ _ hb, List.rdropWhile_concat_pos _ _ _ hb, ih]
    · rw [List.rdropWhile_concat_neg _ _ _ hb, List.rdropWhile_concat_neg _ _ _ hb,
        if_neg (List.append_ne_nil_of_right_ne_nil s (List.cons_ne_nil b [])), List.cons_append]

lemma rdropWhile_cons_of_neg {α : Type} {p : α → Bool} {a : α} (h : ¬ p a = true) (s : List α) :
    (a :: s).rdropWhile p = a :: s.rdropWhile p := by
  rw [rdropWhile_cons, if_neg h]
  split_ifs with hnil
  · rw [hnil]
  · rfl

/-- **Stripping the zeros of some digits strips the pairs of zeros.** -/
theorem digitPairs_evened_rdropWhile {k : ℕ} {ds : List ℕ} (hlen : ds.length = 2 * k) :
    digitPairs ((evened (ds.rdropWhile (· = 0))).length / 2) (evened (ds.rdropWhile (· = 0))) =
      (digitPairs k ds).rdropWhile (· = 0) := by
  induction k generalizing ds with
  | zero =>
    obtain rfl := List.eq_nil_of_length_eq_zero hlen
    rfl
  | succ k ih =>
    match ds, hlen with
    | a :: b :: ds, hlen =>
      have hlen' : ds.length = 2 * k := by
        rw [List.length_cons, List.length_cons] at hlen
        omega
      have hpairs := ih hlen'
      rw [digitPairs, rdropWhile_cons _ (a * 10 + b), ← hpairs, rdropWhile_cons _ a,
        rdropWhile_cons _ b]
      by_cases hnil : ds.rdropWhile (· = 0) = []
      · -- all pairs behind this one are stripped
        rw [if_pos hnil, hnil]
        by_cases ha : a = 0 <;> by_cases hb : b = 0 <;>
          simp [ha, hb, evened, digitPairs]
      · have hne : digitPairs ((evened (ds.rdropWhile (· = 0))).length / 2)
            (evened (ds.rdropWhile (· = 0))) ≠ [] := basePairs_ne_nil hnil
        rw [if_neg hnil, if_neg (List.cons_ne_nil _ _), if_neg hne, evened_cons_cons,
          List.length_cons, List.length_cons, Nat.add_assoc, Nat.add_div_right _ (by decide),
          digitPairs]

/-! ### The digits of an integer -/

/-- The digits of a number that is not zero, the first of which is not. -/
lemma exists_digits {n : ℕ} (hn : n ≠ 0) : ∃ d ds, d ≠ 0 ∧ (∀ c ∈ d :: ds, c < 10) ∧
    Nat.toDigits 10 n = (d :: ds).map Nat.digitChar := by
  induction n using Nat.strongRecOn with
  | ind n ih =>
    by_cases hlt : n < 10
    · refine ⟨n, [], hn, fun c hc => ?_, Nat.toDigits_of_lt_base hlt⟩
      rwa [List.mem_singleton.1 hc]
    · obtain ⟨d, ds, hd, hds, hdigits⟩ := ih (n / 10) (by omega) (by omega)
      refine ⟨d, ds ++ [n % 10], hd, fun c hc => ?_, ?_⟩
      · rw [← List.cons_append, List.mem_append, List.mem_singleton] at hc
        rcases hc with hc | rfl
        · exact hds c hc
        · exact Nat.mod_lt _ (by decide)
      · rw [Nat.toDigits_of_base_le (by decide) (Nat.le_of_not_lt hlt), hdigits,
          ← List.cons_append, List.map_append]
        rfl

/-- Digits in pairs, with a zero in front of an odd number of them. -/
def leadingPairs (ds : List ℕ) : List ℕ :=
  if ds.length % 2 ≠ 0 then digitPairs ((0 :: ds).length / 2) (0 :: ds)
  else digitPairs (ds.length / 2) ds

lemma digitPairs_evenDigits {n : ℕ} {ds : List ℕ} (hlt : ∀ c ∈ ds, c < 10)
    (hdigits : Nat.toDigits 10 n = ds.map Nat.digitChar) :
    digitPairs ((evenDigits n).length / 2) ((evenDigits n).map digitVal) = leadingPairs ds := by
  unfold evenDigits leadingPairs
  rw [hdigits]
  dsimp only
  rw [List.length_map]
  split_ifs
  · rw [List.length_cons, List.length_map, List.map_cons, map_digitChar hlt]
    rfl
  · rw [List.length_map, map_digitChar hlt]

section Pairs

variable {d : ℕ} {ds : List ℕ}

/-- An odd number of digits: the first pair has one digit. -/
lemma leadingPairs_odd (h : ds.length % 2 = 0) :
    leadingPairs (d :: ds) = d :: digitPairs (ds.length / 2) ds := by
  have hodd : (d :: ds).length % 2 ≠ 0 := by
    rw [List.length_cons]
    omega
  rw [leadingPairs, if_pos hodd, List.length_cons, List.length_cons, Nat.add_assoc,
    Nat.add_div_right _ (by decide), digitPairs, Nat.zero_mul, Nat.zero_add]

lemma leadingPairs_even (h : ds.length % 2 = 0) :
    leadingPairs ds = digitPairs (ds.length / 2) ds := by
  rw [leadingPairs, if_neg (not_not.2 h)]

lemma leadingPairs_lt (h : ∀ c ∈ ds, c < 10) : ∀ pair ∈ leadingPairs ds, pair < 100 := by
  unfold leadingPairs
  split_ifs
  · refine digitPairs_lt fun c hc => ?_
    rcases List.mem_cons.1 hc with rfl | hc
    · decide
    · exact h c hc
  · exact digitPairs_lt h

lemma length_leadingPairs (ds : List ℕ) : (leadingPairs ds).length = (ds.length + 1) / 2 := by
  unfold leadingPairs
  split_ifs
  · rw [length_digitPairs (by rw [List.length_cons]; omega), List.length_cons]
  · rw [length_digitPairs (by omega)]
    omega

/-- Pairs of digits are the same number as the digits. -/
lemma ofPairs_leadingPairs (ds : List ℕ) : ofPairs (leadingPairs ds) = ofDigits ds := by
  unfold leadingPairs ofPairs
  split_ifs
  · rw [foldl_digitPairs (by rw [List.length_cons]; omega), List.foldl_cons]
    rfl
  · rw [foldl_digitPairs (by omega)]
    rfl

/-- The last pair of a number is what is left of it modulo 100. -/
lemma rdropWhile_leadingPairs_eq_iff (hlt : ∀ c ∈ d :: ds, c < 10) :
    (leadingPairs (d :: ds)).rdropWhile (· = 0) = leadingPairs (d :: ds) ↔
      ¬ 100 ∣ ofDigits (d :: ds) := by
  have hlen := length_leadingPairs (d :: ds)
  have hne : leadingPairs (d :: ds) ≠ [] := by
    rw [← List.length_pos_iff, hlen, List.length_cons]
    omega
  have hlast := leadingPairs_lt hlt _ (List.getLast_mem hne)
  have hmod : ofDigits (d :: ds) % 100 = (leadingPairs (d :: ds)).getLast hne := by
    conv_lhs => rw [← ofPairs_leadingPairs, ← List.dropLast_append_getLast hne]
    rw [ofPairs, List.foldl_append, List.foldl_cons, List.foldl_nil]
    omega
  rw [List.rdropWhile_eq_self_iff, forall_prop_of_true hne, Nat.dvd_iff_mod_eq_zero, hmod,
    decide_eq_true_eq]

end Pairs

/-! ### The bytes of an integer -/

section Bytes

variable {v : Int64} {d : ℕ} {ds : List ℕ}

/-- The byte in front of so many pairs. -/
lemma exponentByte_length {k : ℕ} (hk : k ≤ 10) :
    exponentByte false k = 0xC0 + UInt8.ofNat k ∧ exponentByte true k = 0x3F - UInt8.ofNat k := by
  have hall : ∀ k : Fin 11, exponentByte false (k : ℕ) = 0xC0 + UInt8.ofNat k ∧
      exponentByte true (k : ℕ) = 0x3F - UInt8.ofNat k := by decide
  exact hall ⟨k, by omega⟩

lemma length_numberBytes {negative : Bool} {q : ℤ} {pairs : List ℕ} (h : pairs.length ≤ 10) :
    (numberBytes negative q pairs).length = pairs.length + (if negative then 2 else 1) := by
  have hshort : (exponentByte negative q :: pairs.map (pairByte negative)).length < 21 := by
    rw [List.length_cons, List.length_map]
    omega
  unfold numberBytes
  dsimp only
  rw [decide_eq_true hshort, Bool.and_true]
  cases negative <;> simp

/-- A number of 64 bits has at most 20 digits. -/
lemma length_digits_le (hdigits : Nat.toDigits 10 v.toInt.natAbs = ds.map Nat.digitChar) :
    ds.length ≤ 20 := by
  have hlt := v.toInt_lt
  have hge := v.le_toInt
  have hlen := (Nat.length_toDigits_le_iff (b := 10) (k := 20) (n := v.toInt.natAbs) (by decide)
    (by decide)).2 (by omega)
  rwa [hdigits, List.length_map] at hlen

/-- The bytes of an integer are those of its pairs. -/
lemma encodeOracleNumberI64_eq (hv : v ≠ 0) (hlt : ∀ c ∈ ds, c < 10)
    (hdigits : Nat.toDigits 10 v.toInt.natAbs = ds.map Nat.digitChar) :
    encodeOracleNumberI64 v = numberBytes (decide (v.toInt < 0)) ((ds.length + 1) / 2 : ℕ)
      (leadingPairs ds) := by
  have hle := length_digits_le hdigits
  have hlen := length_leadingPairs ds
  obtain ⟨hpositive, hnegative⟩ := exponentByte_length (k := (ds.length + 1) / 2) (by omega)
  have hzero : v.toInt ≠ 0 := fun h => hv (Int64.toInt_inj.1 (h.trans Int64.toInt_zero.symm))
  rw [encodeOracleNumberI64, if_neg hv]
  dsimp only
  have hpos : 0 < v ↔ 0 < v.toInt := by
    rw [Int64.lt_iff_toInt_lt, Int64.toInt_zero]
  rw [digitPairs_evenDigits hlt hdigits, hlen, numberBytes]
  by_cases hneg : v.toInt < 0
  · rw [if_neg (fun h => by rw [hpos] at h; omega), decide_eq_true hneg, hnegative]
    have hshort : ((0x3F - UInt8.ofNat ((ds.length + 1) / 2)) ::
        (leadingPairs ds).map (pairByte true)).length < 21 := by
      rw [List.length_cons, List.length_map, hlen]
      omega
    rw [Bool.true_and, decide_eq_true hshort, if_pos rfl]
    rfl
  · rw [if_pos (hpos.2 (by omega)), decide_eq_false hneg, hpositive]
    rfl

/-- The pairs of an integer come back as its digits. -/
lemma mantissaDigits_leadingPairs (negative : Bool) (hd : d ≠ 0) (hlt : ∀ c ∈ d :: ds, c < 10) :
    mantissaDigits (!negative) ((leadingPairs (d :: ds)).map (pairByte negative)) []
      (2 * ((((d :: ds).length + 1) / 2 : ℕ) : ℤ)) =
      .ok (dropZero (d :: ds), ((d :: ds).length : ℤ)) := by
  have hhead := hlt d List.mem_cons_self
  by_cases hodd : ds.length % 2 = 0
  · -- the first pair has one digit, and moves the point
    have hpoint : 2 * ((((d :: ds).length + 1) / 2 : ℕ) : ℤ) - 1 = ((d :: ds).length : ℤ) := by
      rw [List.length_cons]
      omega
    have hback := @mantissaDigits_pairs negative _ _
      (fun c hc => hlt c (List.mem_cons_of_mem d hc)) (show ds.length = 2 * (ds.length / 2) by omega)
      [d] (.inl (List.cons_ne_nil _ _)) ((d :: ds).length : ℤ)
    have hzero : [d] ++ dropZero ds = dropZero (d :: ds) := by
      unfold dropZero
      cases ds with
      | nil => rw [if_neg (by simp), if_neg (by simpa using hd), List.append_nil]
      | cons c ds =>
        rw [List.getLast?_cons_cons]
        split_ifs
        · rfl
        · rfl
    rw [leadingPairs_odd hodd, List.map_cons, mantissaDigits]
    simp only [pairByte_back (show d < 100 by omega), show d / 10 = 0 by omega,
      show d % 10 = d by omega]
    rw [if_neg (by omega), if_pos (.inl hd), hpoint]
    exact hback.trans (by rw [hzero])
  · have heven : (d :: ds).length % 2 = 0 := by
      rw [List.length_cons]
      omega
    have hpoint : 2 * ((((d :: ds).length + 1) / 2 : ℕ) : ℤ) = ((d :: ds).length : ℤ) := by omega
    have hback := @mantissaDigits_pairs negative _ _ hlt
      (show (d :: ds).length = 2 * ((d :: ds).length / 2) by omega) []
      (.inr fun c hc => (Option.some.inj hc) ▸ hd) ((d :: ds).length : ℤ)
    rw [leadingPairs_even heven, hpoint, hback, List.nil_append]

lemma dropZero_ne_nil (hd : d ≠ 0) : dropZero (d :: ds) ≠ [] := by
  unfold dropZero
  cases ds with
  | nil =>
    rw [if_neg (by simpa using hd)]
    exact List.cons_ne_nil _ _
  | cons c ds =>
    rw [List.dropLast_cons_cons]
    split_ifs
    · exact List.cons_ne_nil _ _
    · exact List.cons_ne_nil _ _

/-- Zeros are put behind digits in front of the point. -/
lemma renderNumber_dropZero (positive : Bool) :
    renderNumber positive (dropZero (d :: ds)) ((d :: ds).length : ℤ) =
      (if positive then [] else ['-']) ++ (d :: ds).map Nat.digitChar := by
  have hsplit : dropZero (d :: ds) ++
      List.replicate ((d :: ds).length - (dropZero (d :: ds)).length) 0 = d :: ds := by
    unfold dropZero
    split_ifs with hzero
    · have hone : (d :: ds).length - (d :: ds).dropLast.length = 1 := by
        rw [List.length_dropLast, List.length_cons]
        omega
      rw [hone]
      exact List.dropLast_append_getLast? 0 hzero
    · rw [Nat.sub_self, List.replicate_zero, List.append_nil]
  have hle : (dropZero (d :: ds)).length ≤ (d :: ds).length := by
    have hlen := congrArg List.length hsplit
    rw [List.length_append] at hlen
    omega
  have hpos : ¬ ((d :: ds).length : ℤ) ≤ 0 := by
    rw [List.length_cons]
    omega
  have hchars : (dropZero (d :: ds)).map Nat.digitChar ++
      List.replicate ((d :: ds).length - (dropZero (d :: ds)).length) '0' =
        (d :: ds).map Nat.digitChar := by
    conv_rhs => rw [← hsplit, List.map_append, List.map_replicate]
    rfl
  unfold renderNumber
  dsimp only
  rw [if_neg hpos, List.length_map, Int.toNat_natCast, if_pos hle, hchars]
  cases positive <;> rfl

/-- The text of an integer, from its digits. -/
lemma decimalText_eq (hdigits : Nat.toDigits 10 v.toInt.natAbs = ds.map Nat.digitChar) :
    decimalText v = (if v.toInt < 0 then ['-'] else []) ++ ds.map Nat.digitChar := by
  rw [decimalText, ← intLiteral_text, ← hdigits]
  show (if v.toInt < 0 then ['-'] else []) ++ (Nat.toDigits 10 v.toInt.natAbs ++ []) = _
  rw [List.append_nil]

/-- **What the bytes of an integer are decoded to**: its text. -/
theorem decode_encodeOracleNumberI64 (v : Int64) :
    decodeOracleNumber (encodeOracleNumberI64 v) = .ok (decimalText v) := by
  by_cases hv : v = 0
  · rw [hv]
    decide
  · have hzero : v.toInt ≠ 0 := fun h => hv (Int64.toInt_inj.1 (h.trans Int64.toInt_zero.symm))
    obtain ⟨d, ds, hd, hlt, hdigits⟩ := exists_digits (Int.natAbs_ne_zero.2 hzero)
    have hle := length_digits_le hdigits
    have hne : leadingPairs (d :: ds) ≠ [] := by
      rw [← List.length_pos_iff, length_leadingPairs, List.length_cons]
      omega
    rw [encodeOracleNumberI64_eq hv hlt hdigits, decimalText_eq hdigits,
      decode_numberBytes (by omega) (leadingPairs_lt hlt) hne (dropZero_ne_nil hd)
        (mantissaDigits_leadingPairs _ hd hlt), renderNumber_dropZero]
    by_cases hneg : v.toInt < 0 <;> simp [hneg]

/-- What the text of an integer is encoded to: the bytes of its pairs without those of zeros. -/
lemma encode_decimalText (hd : d ≠ 0) (hlt : ∀ c ∈ d :: ds, c < 10)
    (hdigits : Nat.toDigits 10 v.toInt.natAbs = (d :: ds).map Nat.digitChar) :
    encodeOracleNumberDecimal (decimalText v) = .ok (numberBytes (decide (v.toInt < 0))
      (((d :: ds).length + 1) / 2 : ℕ) ((leadingPairs (d :: ds)).rdropWhile (· = 0))) := by
  have hnatAbs : v.toInt.natAbs < 2 ^ 64 := by
    have hlt := v.toInt_lt
    have hge := v.le_toInt
    omega
  have hdrop : (d :: ds).dropWhile (· = 0) = d :: ds :=
    List.dropWhile_cons_of_neg (by simpa using hd)
  have htake : (d :: ds).takeWhile (· = 0) = [] := List.takeWhile_cons_of_neg (by simpa using hd)
  have hrdrop : ∀ s : List ℕ, (d :: s).rdropWhile (· = 0) = d :: s.rdropWhile (· = 0) :=
    fun s => rdropWhile_cons_of_neg (by simpa using hd) s
  have hle := length_digits_le hdigits
  have hmantissa : (intLiteral 0 v.toInt).mantissa.map digitVal = d :: ds := by
    show ((Nat.toDigits 10 v.toInt.natAbs) ++ []).map digitVal = _
    rw [List.append_nil, hdigits, map_digitChar hlt]
  have hsignificant : (intLiteral 0 v.toInt).significant = d :: ds.rdropWhile (· = 0) := by
    rw [Parts.significant, hmantissa, hdrop, hrdrop]
  have hpoint : (intLiteral 0 v.toInt).point = ((d :: ds).length : ℤ) := by
    have hint : (intLiteral 0 v.toInt).int.length = (d :: ds).length := by
      show (Nat.toDigits 10 v.toInt.natAbs).length = _
      rw [hdigits, List.length_map]
    have hexponent : (intLiteral 0 v.toInt).exponent = 0 := rfl
    rw [Literal.point, hmantissa, htake, hint, hexponent]
    simp
  have hzeros : 0 < 256 := by decide
  have hshort := intLiteral_short hzeros hnatAbs
  have hrange : (intLiteral 0 v.toInt).InRange := by
    refine ⟨(length_significant_intLiteral hnatAbs).trans (by decide), fun _ => ?_⟩
    rw [hpoint]
    omega
  rw [decimalText, ← intLiteral_text, encode_short hshort]
  refine ⟨hrange, ?_⟩
  have hsign : decide ((intLiteral 0 v.toInt).sign = ['-']) = decide (v.toInt < 0) := by
    by_cases hneg : v.toInt < 0 <;> simp [intLiteral, hneg]
  rw [Parts.bytes, (point32_short hshort).1, hsignificant, if_neg (List.cons_ne_nil _ _), hsign,
    hpoint, encodeDigits_eq]
  by_cases hodd : ds.length % 2 = 0
  · -- the first pair has one digit
    have htmod : ((d :: ds).length : ℤ).tmod 2 ≠ 0 := by
      rw [List.length_cons, Int.tmod_eq_emod_of_nonneg (by omega)]
      omega
    have htdiv : (((d :: ds).length : ℤ) + 1).tdiv 2 = (((d :: ds).length + 1) / 2 : ℕ) := by
      rw [Int.tdiv_eq_ediv_of_nonneg (by omega)]
      omega
    rw [if_pos htmod, htdiv, basePairs_true, leadingPairs_odd hodd, hrdrop,
      digitPairs_evened_rdropWhile (show ds.length = 2 * (ds.length / 2) by omega)]
  · have heven : (d :: ds).length % 2 = 0 := by
      rw [List.length_cons]
      omega
    have htmod : ¬ ((d :: ds).length : ℤ).tmod 2 ≠ 0 := by
      rw [Int.tmod_eq_emod_of_nonneg (by omega)]
      omega
    have htdiv : ((d :: ds).length : ℤ).tdiv 2 = (((d :: ds).length + 1) / 2 : ℕ) := by
      rw [Int.tdiv_eq_ediv_of_nonneg (by omega)]
      omega
    rw [if_neg htmod, htdiv, leadingPairs_even heven, ← hrdrop,
      ← digitPairs_evened_rdropWhile (show (d :: ds).length = 2 * ((d :: ds).length / 2) by omega)]
    rfl

end Bytes

/-- **The integers that have the same bytes from both encoders** are zero and those that do not end
with two zeros. -/
theorem encoders_agree_iff (v : Int64) :
    (encodeOracleNumberDecimal (decimalText v) = .ok (encodeOracleNumberI64 v) ∧
      decodeOracleNumber (encodeOracleNumberI64 v) = .ok (decimalText v)) ↔
    v = 0 ∨ ¬ 100 ∣ v.toInt := by
  rw [and_iff_left (decode_encodeOracleNumberI64 v)]
  by_cases hv : v = 0
  · rw [hv]
    exact iff_of_true (by decide) (.inl rfl)
  · have hzero : v.toInt ≠ 0 := fun h => hv (Int64.toInt_inj.1 (h.trans Int64.toInt_zero.symm))
    obtain ⟨d, ds, hd, hlt, hdigits⟩ := exists_digits (Int.natAbs_ne_zero.2 hzero)
    have hvalue : ofDigits (d :: ds) = v.toInt.natAbs := by
      rw [← map_digitChar hlt, ← hdigits, ← ofDigitChars_eq, Nat.ofDigitChars_ten_toDigits]
    have hdvd : 100 ∣ v.toInt ↔ 100 ∣ ofDigits (d :: ds) := by
      rw [hvalue]
      omega
    rw [encode_decimalText hd hlt hdigits, encodeOracleNumberI64_eq hv hlt hdigits, or_iff_right hv,
      hdvd, ← rdropWhile_leadingPairs_eq_iff hlt, Except.ok.injEq]
    constructor
    · -- bytes of the same number have the same pairs, as these are as many
      intro h
      have hlen := length_leadingPairs (d :: ds)
      have hle := length_digits_le hdigits
      have hpre := List.rdropWhile_prefix (fun p : ℕ => decide (p = 0)) (leadingPairs (d :: ds))
      refine hpre.eq_of_length ?_
      have hlengths := congrArg List.length h
      rwa [length_numberBytes (hpre.length_le.trans (by omega)),
        length_numberBytes (by omega), Nat.add_right_cancel_iff] at hlengths
    · intro h
      rw [h]

/-- One hundred has other bytes. -/
theorem hundred_encoders_disagree :
    ¬ ((∀ v : Int64, encodeOracleNumberDecimal (decimalText v) = .ok (encodeOracleNumberI64 v)) ∧
      ∀ v : Int64, decodeOracleNumber (encodeOracleNumberI64 v) = .ok (decimalText v)) := by
  rintro ⟨hsame, -⟩
  have hundred := hsame 100
  revert hundred
  decide

end DbSaci.Wire
