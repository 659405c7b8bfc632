import DbSaci.Wire.NumberText
import Mathlib.Tactic.IntervalCases

set_option relaxedAutoImplicit false
set_option autoImplicit false

/-!
# The digits of a `NUMBER` come back

## Main definitions

* `Normal` — digits without zeros at their ends, and a point, that fit into a `NUMBER`.

## Main results

* `decode_encodeDigits` — the digits and the point of a number come back.
* `renderNumber_literal` — and the text they come back as stands for the same number.
-/

namespace DbSaci.Wire

open Text Decimal

/-- Digits without zeros at their ends, and a point, that fit into a `NUMBER`. -/
structure Normal (digits : List ℕ) (decimalPoint : ℤ) : Prop where
  digit : ∀ d ∈ digits, d < 10
  first : ∃ d ds, digits = d :: ds ∧ d ≠ 0
  last : ∀ d ∈ digits.getLast?, d ≠ 0
  length_le : digits.length ≤ 40
  point_mem : -129 ≤ decimalPoint ∧ decimalPoint ≤ 126

/-! ### Pairs of digits -/

/-- The byte of a pair. -/
def pairByte (negative : Bool) (pair : ℕ) : UInt8 :=
  UInt8.ofNat (if negative then 101 - pair else pair + 1)

/-- A pair comes back from its byte. -/
lemma pairByte_back {negative : Bool} {pair : ℕ} (h : pair < 100) :
    (if !negative then pairByte negative pair - 1 else 101 - pairByte negative pair).toNat =
      pair := by
  have hall : ∀ pair : Fin 100, (UInt8.ofNat (pair + 1) - 1).toNat = pair ∧
      (101 - UInt8.ofNat (101 - pair)).toNat = pair := by decide
  cases negative with
  | false => exact (hall ⟨pair, h⟩).1
  | true => exact (hall ⟨pair, h⟩).2

/-- The byte of a pair is not the one that ends a negative mantissa. -/
lemma pairByte_ne {negative : Bool} {pair : ℕ} (h : pair < 100) : pairByte negative pair ≠ 102 := by
  have hall : ∀ pair : Fin 100, UInt8.ofNat (pair + 1) ≠ 102 ∧ UInt8.ofNat (101 - pair) ≠ 102 := by
    decide
  cases negative with
  | false => exact (hall ⟨pair, h⟩).1
  | true => exact (hall ⟨pair, h⟩).2

lemma digitPairs_append (k : ℕ) (a x : List ℕ) (h : a.length = 2 * k) :
    digitPairs k (a ++ x) = digitPairs k a := by
  induction k generalizing a with
  | zero => rfl
  | succ k ih =>
    match a, h with
    | a :: b :: ds, h =>
      rw [List.cons_append, List.cons_append, digitPairs, digitPairs, ih]
      rw [List.length_cons, List.length_cons] at h
      omega

lemma digitPairs_lt {k : ℕ} {ds : List ℕ} (h : ∀ d ∈ ds, d < 10) :
    ∀ pair ∈ digitPairs k ds, pair < 100 := by
  induction k generalizing ds with
  | zero => simp [digitPairs]
  | succ k ih =>
    match ds, h with
    | [], _ => simp [digitPairs]
    | [_], _ => simp [digitPairs]
    | a :: b :: ds, h =>
      have ha := h a (by simp)
      have hb := h b (by simp)
      intro pair hpair
      rw [digitPairs] at hpair
      rcases List.mem_cons.1 hpair with rfl | hpair
      · omega
      · exact ih (fun d hd => h d (by simp [hd])) pair hpair

/-- Digits without a zero at their end. -/
def dropZero (ds : List ℕ) : List ℕ := if ds.getLast? = some 0 then ds.dropLast else ds

/-- The pairs of digits come back as the digits, behind some that are there or with a first digit
that is not zero. -/
lemma mantissaDigits_pairs {negative : Bool} {k : ℕ} {ds : List ℕ} (hds : ∀ d ∈ ds, d < 10)
    (hlen : ds.length = 2 * k) {acc : List ℕ} (hacc : acc ≠ [] ∨ ∀ d ∈ ds.head?, d ≠ 0)
    (point : ℤ) :
    mantissaDigits (!negative) ((digitPairs k ds).map (pairByte negative)) acc point =
      .ok (acc ++ dropZero ds, point) := by
  induction k generalizing ds acc with
  | zero =>
    obtain rfl := List.eq_nil_of_length_eq_zero hlen
    rw [digitPairs, List.map_nil, mantissaDigits, dropZero, if_neg (by simp), List.append_nil]
    intro _ _ _ _ h
    cases h
  | succ k ih =>
    match ds, hlen with
    | a :: b :: ds, hlen =>
      have ha := hds a (by simp)
      have hb := hds b (by simp)
      have hlen' : ds.length = 2 * k := by
        rw [List.length_cons, List.length_cons] at hlen
        omega
      have hhigh : (a * 10 + b) / 10 = a := by omega
      have hlow : (a * 10 + b) % 10 = b := by omega
      have hfirst : ¬ (a = 0 ∧ acc = []) := by
        rintro ⟨hzero, hnil⟩
        rcases hacc with h | h
        · exact h hnil
        · exact h a rfl hzero
      rw [digitPairs, List.map_cons, mantissaDigits]
      simp only [pairByte_back (show a * 10 + b < 100 by omega), hhigh, hlow]
      rw [if_neg (by omega), if_neg hfirst]
      dsimp only
      by_cases hnil : ds = []
      · obtain rfl := hnil
        obtain rfl : k = 0 := by
          rw [List.length_nil] at hlen'
          omega
        rw [digitPairs, List.map_nil, mantissaDigits]
        · by_cases hzero : b = 0
          · obtain rfl := hzero
            simp [dropZero]
          · simp [dropZero, hzero]
        · intro _ _ _ _ h
          cases h
      · have hrest : (digitPairs k ds).map (pairByte negative) ≠ [] := by
          match ds, hnil with
          | [d], _ =>
            rw [List.length_singleton] at hlen'
            omega
          | c :: d :: ds, _ =>
            obtain ⟨k, rfl⟩ : ∃ j, k = j + 1 := by
              rw [List.length_cons, List.length_cons] at hlen'
              exact ⟨k - 1, by omega⟩
            rw [digitPairs, List.map_cons]
            exact List.cons_ne_nil _ _
        have hlast : dropZero (a :: b :: ds) = a :: b :: dropZero ds := by
          obtain ⟨c, ds, rfl⟩ := List.exists_cons_of_ne_nil hnil
          unfold dropZero
          rw [List.getLast?_cons_cons, List.getLast?_cons_cons]
          split_ifs <;> simp
        rw [if_pos (.inr hrest), ih (fun d hd => hds d (by simp [hd])) hlen'
          (.inl (by simp)), hlast, List.append_assoc, List.append_assoc]
        rfl

/-- An even number of digits, with a zero behind them if it has to be. -/
def evened (ds : List ℕ) : List ℕ := if ds.length % 2 ≠ 0 then ds ++ [0] else ds

lemma dropZero_evened {ds : List ℕ} (h : ∀ d ∈ ds.getLast?, d ≠ 0) : dropZero (evened ds) = ds := by
  unfold evened dropZero
  split_ifs with hodd hzero hzero
  · rw [List.dropLast_concat]
  · exact absurd (by simp) hzero
  · exact absurd rfl (h 0 hzero)
  · rfl

lemma length_evened (ds : List ℕ) : (evened ds).length = 2 * ((evened ds).length / 2) := by
  unfold evened
  split_ifs
  · rw [List.length_append, List.length_singleton]
    omega
  · omega

lemma evened_lt {ds : List ℕ} (h : ∀ d ∈ ds, d < 10) : ∀ d ∈ evened ds, d < 10 := by
  unfold evened
  split_ifs
  · intro d hd
    rcases List.mem_append.1 hd with hd | hd
    · exact h d hd
    · rw [List.mem_singleton.1 hd]
      decide
  · exact h

lemma basePairs_ne_nil {ds : List ℕ} (h : ds ≠ []) : basePairs false (evened ds) ≠ [] := by
  have hlen := length_evened ds
  have hne : evened ds ≠ [] := by
    unfold evened
    split_ifs
    · exact List.append_ne_nil_of_left_ne_nil h _
    · exact h
  revert hlen hne
  rcases evened ds with _ | ⟨a, _ | ⟨b, ds⟩⟩ <;> intro hlen hne
  · exact absurd rfl hne
  · rw [List.length_singleton] at hlen
    omega
  · show digitPairs ((a :: b :: ds).length / 2) (a :: b :: ds) ≠ []
    rw [List.length_cons, List.length_cons, Nat.add_assoc, Nat.add_div_right _ (by decide)]
    exact List.cons_ne_nil _ _

section Back

variable {digits : List ℕ} {decimalPoint : ℤ}

/-- The pairs come back where the point stands between two of them. -/
lemma basePairs_even (h : Normal digits decimalPoint) (negative : Bool) :
    mantissaDigits (!negative) ((basePairs false (evened digits)).map (pairByte negative)) []
      decimalPoint = .ok (digits, decimalPoint) := by
  obtain ⟨d, ds, hds, hd⟩ := h.first
  have hhead : ∀ c ∈ (evened digits).head?, c ≠ 0 := by
    unfold evened
    rw [hds]
    split_ifs
    · rintro c ⟨⟩
      exact hd
    · rintro c ⟨⟩
      exact hd
  have hback := @mantissaDigits_pairs negative _ _ (evened_lt h.digit) (length_evened digits) []
    (.inr hhead) decimalPoint
  rw [dropZero_evened h.last, List.nil_append] at hback
  exact hback

/-- The digits behind the first one, in pairs. -/
lemma basePairs_true (d : ℕ) (ds : List ℕ) : basePairs true (evened (d :: ds ++ [0])) =
    d :: digitPairs ((evened ds).length / 2) (evened ds) := by
  have hlen := length_evened ds
  -- the zero behind the digits makes up for the pair that has one digit
  have hsplit : evened (d :: ds ++ [0]) = d :: (evened ds ++ [0]) := by
    unfold evened
    rw [List.length_append, List.length_cons, List.length_singleton]
    by_cases hodd : ds.length % 2 ≠ 0
    · rw [if_pos (by omega), if_pos hodd]
      rfl
    · rw [if_neg (by omega), if_neg hodd]
      rfl
  have hcount : (d :: (evened ds ++ [0])).length / 2 - 1 = (evened ds).length / 2 := by
    rw [List.length_cons, List.length_append, List.length_singleton]
    omega
  rw [hsplit, basePairs, hcount, digitPairs_append _ _ _ hlen]

/-- The pairs come back where the point stands inside of one. -/
lemma basePairs_odd (h : Normal digits decimalPoint) (negative : Bool) :
    mantissaDigits (!negative) ((basePairs true (evened (digits ++ [0]))).map (pairByte negative))
      [] (decimalPoint + 1) = .ok (digits, decimalPoint) := by
  obtain ⟨d, ds, rfl, hd⟩ := h.first
  have hlt := h.digit d List.mem_cons_self
  have hds : ∀ c ∈ ds, c < 10 := fun c hc => h.digit c (List.mem_cons_of_mem d hc)
  have hlast : ∀ c ∈ ds.getLast?, c ≠ 0 := by
    intro c hc
    refine h.last c ?_
    cases ds with
    | nil => cases hc
    | cons e ds => rwa [List.getLast?_cons_cons]
  have hback := @mantissaDigits_pairs negative _ _ (evened_lt hds) (length_evened ds) [d]
    (.inl (List.cons_ne_nil _ _)) decimalPoint
  rw [dropZero_evened hlast] at hback
  have hhigh : d / 10 = 0 := by omega
  have hlow : d % 10 = d := by omega
  rw [basePairs_true, List.map_cons, mantissaDigits]
  simp only [pairByte_back (show d < 100 by omega), hhigh, hlow]
  rw [if_neg (by omega), if_pos (.inl hd)]
  simpa using hback

end Back

/-! ### The bytes of a number -/

/-- The byte of an exponent. -/
def exponentByte (negative : Bool) (q : ℤ) : UInt8 :=
  if negative then ~~~ UInt8.ofInt (q + 192) else UInt8.ofInt (q + 192)

/-- The sign and the exponent come back from their byte. -/
lemma exponentByte_back {negative : Bool} {q : ℤ} (h : -64 ≤ q ∧ q ≤ 63) :
    decide (exponentByte negative q &&& 0x80 ≠ 0) = !negative ∧
      ((if !negative then exponentByte negative q else ~~~ exponentByte negative q).toNat : ℤ) =
        q + 192 := by
  have hall : ∀ k : Fin 128, (UInt8.ofInt ((k : ℕ) + 128) &&& 0x80 ≠ 0 ∧
      ~~~ UInt8.ofInt ((k : ℕ) + 128) &&& 0x80 = 0) ∧
      (UInt8.ofInt ((k : ℕ) + 128)).toNat = k + 128 ∧
      (~~~ ~~~ UInt8.ofInt ((k : ℕ) + 128)).toNat = k + 128 := by decide
  obtain ⟨k, hk⟩ := Int.eq_ofNat_of_zero_le (show 0 ≤ q + 64 by omega)
  obtain ⟨⟨hset, hclear⟩, hpos, hneg⟩ := hall ⟨k, by omega⟩
  have hq : q + 192 = (k : ℤ) + 128 := by omega
  unfold exponentByte
  rw [hq]
  cases negative with
  | false => exact ⟨decide_eq_true hset, congrArg Nat.cast hpos⟩
  | true => exact ⟨decide_eq_false (not_not.2 hclear), congrArg Nat.cast hneg⟩

/-- The bytes of a number: those of its pairs behind the one of the exponent, and the end of a
negative one that is not too long. -/
def numberBytes (negative : Bool) (q : ℤ) (pairs : List ℕ) : List UInt8 :=
  let encoded := exponentByte negative q :: pairs.map (pairByte negative)
  if negative && encoded.length < 21 then encoded ++ [102] else encoded

/-- The mantissa without its end. -/
lemma numberBytes_mantissa {negative : Bool} {q : ℤ} {pairs : List ℕ}
    (hpairs : ∀ p ∈ pairs, p < 100) :
    ∃ mantissa, numberBytes negative q pairs = exponentByte negative q :: mantissa ∧
      (if (!negative) = false ∧ mantissa.getLast? = some 102 then mantissa.dropLast else mantissa) =
        pairs.map (pairByte negative) := by
  have hlast : (pairs.map (pairByte negative)).getLast? ≠ some 102 := by
    intro h
    obtain ⟨p, hp, hbyte⟩ := List.mem_map.1 (List.mem_of_getLast? h)
    exact pairByte_ne (hpairs p hp) hbyte
  unfold numberBytes
  by_cases hend : (negative &&
      decide ((exponentByte negative q :: pairs.map (pairByte negative)).length < 21)) = true
  · refine ⟨pairs.map (pairByte negative) ++ [102], if_pos hend, ?_⟩
    have hneg : (!negative) = false := by simp_all
    rw [if_pos ⟨hneg, by simp⟩, List.dropLast_concat]
  · exact ⟨_, if_neg hend, if_neg fun h => hlast h.2⟩

/-- A number is decoded if its pairs are. -/
lemma decode_numberBytes {negative : Bool} {q : ℤ} {pairs digits : List ℕ} {decimalPoint : ℤ}
    (hq : -64 ≤ q ∧ q ≤ 63) (hpairs : ∀ p ∈ pairs, p < 100) (hne : pairs ≠ [])
    (hdigits : digits ≠ [])
    (hback : mantissaDigits (!negative) (pairs.map (pairByte negative)) [] (2 * q) =
      .ok (digits, decimalPoint)) :
    decodeOracleNumber (numberBytes negative q pairs) =
      .ok (renderNumber (!negative) digits decimalPoint) := by
  obtain ⟨hsign, hexp⟩ := @exponentByte_back negative _ hq
  obtain ⟨mantissa, hbytes, hmantissa⟩ :=
    @numberBytes_mantissa negative q _ hpairs
  have hnil : mantissa ≠ [] := by
    rintro rfl
    rw [List.dropLast_nil, ite_self] at hmantissa
    exact hne (List.map_eq_nil_iff.1 hmantissa.symm)
  have hpoint : (if (!negative) = true then ((exponentByte negative q).toNat - 193 : ℤ) * 2 + 2
      else ((~~~ exponentByte negative q).toNat - 193 : ℤ) * 2 + 2) = 2 * q := by
    split_ifs at hexp ⊢ <;> omega
  rw [hbytes, decodeOracleNumber, if_neg (by simp [hnil])]
  dsimp only
  rw [hsign, hpoint, hmantissa, hback]
  exact if_neg hdigits

/-- The bytes of a number, from its pairs. -/
lemma encodeDigits_eq (negative : Bool) (digits : List ℕ) (decimalPoint : ℤ) :
    encodeDigits negative digits decimalPoint =
      if decimalPoint.tmod 2 ≠ 0 then
        numberBytes negative ((decimalPoint + 1).tdiv 2) (basePairs true (evened (digits ++ [0])))
      else numberBytes negative (decimalPoint.tdiv 2) (basePairs false (evened digits)) := by
  unfold encodeDigits
  by_cases h : decimalPoint.tmod 2 ≠ 0
  · rw [if_pos h, decide_eq_true h]
    rfl
  · rw [if_neg h, decide_eq_false h]
    rfl

section Number

variable {digits : List ℕ} {decimalPoint : ℤ}

/-- **The digits and the point of a number come back.** -/
theorem decode_encodeDigits (h : Normal digits decimalPoint) (negative : Bool) :
    decodeOracleNumber (encodeDigits negative digits decimalPoint) =
      .ok (renderNumber (!negative) digits decimalPoint) := by
  obtain ⟨d, ds, hds, hd⟩ := h.first
  have hne : digits ≠ [] := by
    rw [hds]
    exact List.cons_ne_nil _ _
  have hpoint := h.point_mem
  have hzero : ∀ c ∈ digits ++ [0], c < 10 := by
    intro c hc
    rcases List.mem_append.1 hc with hc | hc
    · exact h.digit c hc
    · rw [List.mem_singleton.1 hc]
      decide
  rw [encodeDigits_eq]
  split_ifs with hodd
  · obtain ⟨q, hq⟩ : ∃ q, decimalPoint + 1 = 2 * q := ⟨(decimalPoint + 1) / 2, by
      rcases Int.emod_two_eq_zero_or_one decimalPoint with heven | hodd'
      · exact absurd (Int.tmod_eq_zero_of_dvd (Int.dvd_of_emod_eq_zero heven)) hodd
      · omega⟩
    rw [hq, Int.mul_tdiv_cancel_left _ (by decide)]
    refine decode_numberBytes (by omega) ?_ ?_ hne ?_
    · rw [hds, basePairs_true]
      intro pair hpair
      rcases List.mem_cons.1 hpair with rfl | hpair
      · exact (h.digit pair (by rw [hds]; exact List.mem_cons_self)).trans (by decide)
      · refine digitPairs_lt (evened_lt fun c hc => h.digit c ?_) pair hpair
        rw [hds]
        exact List.mem_cons_of_mem d hc
    · rw [hds, basePairs_true]
      exact List.cons_ne_nil _ _
    · rw [← hq]
      exact basePairs_odd h negative
  · obtain ⟨q, hq⟩ := Int.dvd_of_tmod_eq_zero (not_not.1 hodd)
    rw [hq, Int.mul_tdiv_cancel_left _ (by decide)]
    refine decode_numberBytes (by omega) (digitPairs_lt (evened_lt h.digit)) ?_ hne ?_
    · exact basePairs_ne_nil hne
    · rw [← hq]
      exact basePairs_even h negative

lemma isDigit_digitChar {d : ℕ} (h : d < 10) : d.digitChar.isDigit = true := by
  interval_cases d <;> rfl

lemma digitVal_digitChar {d : ℕ} (h : d < 10) : digitVal d.digitChar = d := by
  interval_cases d <;> rfl

/-- The digits of the text of some digits. -/
lemma map_digitChar {ds : List ℕ} (h : ∀ d ∈ ds, d < 10) :
    (ds.map Nat.digitChar).map digitVal = ds := by
  rw [List.map_map]
  refine (List.map_congr_left fun d hd => ?_).trans (List.map_id ds)
  exact digitVal_digitChar (h d hd)

lemma isDigit_map_digitChar {ds : List ℕ} (h : ∀ d ∈ ds, d < 10) :
    ∀ c ∈ ds.map Nat.digitChar, c.isDigit = true := by
  intro c hc
  obtain ⟨d, hd, rfl⟩ := List.mem_map.1 hc
  exact isDigit_digitChar (h d hd)

/-- The digits in front of the point and behind it, of the text of a number. -/
lemma renderNumber_parts (hlt : ∀ d ∈ digits, d < 10) (hne : digits ≠ []) (positive : Bool) :
    ∃ (int : List Char) (frac : Option (List Char)),
    renderNumber positive digits decimalPoint =
      (if positive then [] else ['-']) ++ (int ++ frac.elim [] fun f => '.' :: f) ∧
    int ≠ [] ∧ (∀ f ∈ frac, f ≠ []) ∧ (∀ c ∈ int ++ frac.getD [], c.isDigit = true) ∧
    (ofDigits ((int ++ frac.getD []).map digitVal) : ℚ) * 10 ^ (-((frac.getD []).length : ℤ)) =
      ofDigits digits * 10 ^ (decimalPoint - digits.length) := by
  have hlen : 0 < digits.length := List.length_pos_iff.2 hne
  have hdigits := isDigit_map_digitChar hlt
  have hback := map_digitChar hlt
  have hdigitsNe : digits.map Nat.digitChar ≠ [] := fun h => hne (List.map_eq_nil_iff.1 h)
  have hzeros : ∀ n, ∀ c ∈ List.replicate n '0', c.isDigit = true := by
    intro n c hc
    rw [List.eq_of_mem_replicate hc]
    rfl
  have hzero : ∀ n, (List.replicate n '0').map digitVal = List.replicate n 0 := by
    intro n
    rw [List.map_replicate]
    rfl
  have hsign : ∀ s : List Char, (if positive then s else '-' :: s) =
      (if positive then [] else ['-']) ++ s := by
    intro s
    cases positive <;> rfl
  rw [renderNumber, hsign]
  by_cases hneg : decimalPoint ≤ 0
  · -- all digits stand behind the point
    refine ⟨['0'], some (List.replicate decimalPoint.natAbs '0' ++ digits.map Nat.digitChar),
      by rw [if_pos hneg]; rfl, List.cons_ne_nil _ _, ?_, ?_, ?_⟩
    · intro f hf
      obtain rfl := Option.some.inj hf
      exact List.append_ne_nil_of_right_ne_nil _ hdigitsNe
    · intro c hc
      rcases List.mem_append.1 hc with hc | hc
      · rw [List.mem_singleton.1 hc]
        rfl
      · rcases List.mem_append.1 hc with hc | hc
        · exact hzeros _ c hc
        · exact hdigits c hc
    · have hpow : -((decimalPoint.natAbs + digits.length : ℕ) : ℤ) =
          decimalPoint - digits.length := by omega
      rw [Option.getD_some, List.map_append, List.map_append, hback, hzero, List.length_append,
        List.length_replicate, List.length_map, hpow, ofDigits_append, ofDigits_append,
        ofDigits_replicate_zero]
      simp [ofDigits, digitVal]
  · rw [if_neg hneg, List.length_map]
    by_cases hle : digits.length ≤ decimalPoint.toNat
    · -- zeros fill up to the point
      refine ⟨digits.map Nat.digitChar ++
        List.replicate (decimalPoint.toNat - digits.length) '0', none,
        by rw [if_pos hle]; simp, List.append_ne_nil_of_left_ne_nil hdigitsNe _,
        (fun f hf => by cases hf), ?_, ?_⟩
      · intro c hc
        rw [Option.getD_none, List.append_nil] at hc
        rcases List.mem_append.1 hc with hc | hc
        · exact hdigits c hc
        · exact hzeros _ c hc
      · have hpow : decimalPoint - digits.length =
            ((decimalPoint.toNat - digits.length : ℕ) : ℤ) := by omega
        rw [Option.getD_none, List.append_nil, List.map_append, hback, hzero, ofDigits_append,
          ofDigits_replicate_zero, List.length_replicate, hpow, zpow_natCast]
        simp
    · -- the point stands between the digits
      refine ⟨(digits.map Nat.digitChar).take decimalPoint.toNat,
        some ((digits.map Nat.digitChar).drop decimalPoint.toNat),
        by rw [if_neg hle]; simp, ?_, ?_, ?_, ?_⟩
      · rw [← List.length_pos_iff, List.length_take, List.length_map]
        omega
      · intro f hf
        obtain rfl := Option.some.inj hf
        rw [← List.length_pos_iff, List.length_drop, List.length_map]
        omega
      · rw [Option.getD_some, List.take_append_drop]
        exact hdigits
      · have hpow : -((digits.length - decimalPoint.toNat : ℕ) : ℤ) =
            decimalPoint - digits.length := by omega
        rw [Option.getD_some, List.take_append_drop, hback, List.length_drop, List.length_map, hpow]

/-- **The text a number comes back as is a literal, which stands for its digits and its point.** -/
theorem renderNumber_literal (h : Normal digits decimalPoint) (positive : Bool) :
    ∃ l : Literal, renderNumber positive digits decimalPoint = l.text ∧
      l.value = (if positive then 1 else -1) * ofDigits digits *
        10 ^ (decimalPoint - digits.length) := by
  have hne : digits ≠ [] := by
    obtain ⟨d, ds, hds, -⟩ := h.first
    rw [hds]
    exact List.cons_ne_nil d ds
  obtain ⟨int, frac, htext, hint, -, hdigits, hvalue⟩ := renderNumber_parts h.digit hne positive
  obtain ⟨sign, hsign⟩ : ∃ sign, sign = if positive then ([] : List Char) else ['-'] := ⟨_, rfl⟩
  have hok : IsSign sign := by
    unfold IsSign
    rw [hsign]
    cases positive <;> simp
  have hfrac : ∀ f ∈ frac, ∀ c ∈ f, c.isDigit = true := by
    intro f hf c hc
    refine hdigits c (List.mem_append_right _ ?_)
    rwa [Option.mem_def.1 hf]
  refine ⟨⟨⟨sign, int, frac, none, []⟩, hok, fun c hc => hdigits c (List.mem_append_left _ hc),
    hfrac, by simp, rfl, List.append_ne_nil_of_left_ne_nil hint _⟩, ?_, ?_⟩
  · show _ = sign ++ (int ++ (frac.elim [] (fun f => '.' :: f) ++ ([] ++ [])))
    rw [htext, hsign, List.append_nil, List.append_nil]
  · have hneg : (if sign = ['-'] then (-1 : ℚ) else 1) = if positive then 1 else -1 := by
      rw [hsign]
      cases positive <;> rfl
    show (if sign = ['-'] then (-1 : ℚ) else 1) *
      (Nat.ofDigitChars 10 (int ++ frac.getD []) 0 : ℕ) * 10 ^ (0 - ((frac.getD []).length : ℤ)) = _
    rw [ofDigitChars_eq, zero_sub, hneg, mul_assoc, hvalue, mul_assoc]

end Number

end DbSaci.Wire
