import DbSaci.Backend.MariaDbColumns
import DbSaci.Library.FloatingPoint
import DbSaci.Wire.BindValue

set_option relaxedAutoImplicit false
set_option autoImplicit false

/-!
# `BINARY_FLOAT` and `BINARY_DOUBLE`

A floating-point number is sent in bytes that a client can sort without reading them, and comes back
in such bytes as the value of a bind.

## Main definitions

* `single`, `double` — the two formats.

## Main results

* `encodeBinary_lt_iff` — the bytes of a number are ordered as the values.
* `binary_ordered` — both types are sorted by their bytes.
* `binary_returned` — a number that comes back is the number that has been sent.
-/

namespace DbSaci.Backend

open FloatingPoint Wire

/-! ### Bytes -/

lemma eight_pos : 0 < 8 := by omega

lemma eleven_pos : 0 < 11 := by omega

/-- `f32`. -/
def single : FloatFormat := ⟨8, 23, eight_pos⟩

/-- `f64`. -/
def double : FloatFormat := ⟨11, 52, eleven_pos⟩

lemma signBit_byte (b : UInt8) : (b &&& 0x80 = 0 ↔ b.toNat < 128) ∧
    (b.toNat < 128 → (b ||| 0x80).toNat = b.toNat + 128) ∧ (~~~b).toNat = 255 - b.toNat := by
  have hall : ∀ k : Fin 256, (UInt8.ofNat k &&& 0x80 = 0 ↔ (UInt8.ofNat k).toNat < 128) ∧
      ((UInt8.ofNat k).toNat < 128 →
        (UInt8.ofNat k ||| 0x80).toNat = (UInt8.ofNat k).toNat + 128) ∧
      (~~~UInt8.ofNat k).toNat = 255 - (UInt8.ofNat k).toNat := by decide +kernel
  have hb := hall ⟨b.toNat, b.toNat_lt⟩
  rwa [UInt8.ofNat_toNat] at hb

/-- Complemented bytes are the number that is as far from the last one. -/
lemma ofBeBytes_complement (b : List UInt8) :
    ofBeBytes (b.map fun byte => ~~~byte) + ofBeBytes b + 1 = 256 ^ b.length := by
  induction b with
  | nil => rfl
  | cons byte b ih =>
    have hbyte := (signBit_byte byte).2.2
    have hlt := byte.toNat_lt
    have hfirst : (~~~byte).toNat * 256 ^ b.length + byte.toNat * 256 ^ b.length =
        255 * 256 ^ b.length := by
      rw [← Nat.add_mul, hbyte, Nat.sub_add_cancel (by omega)]
    rw [List.map_cons, ofBeBytes_cons, ofBeBytes_cons, List.length_map, List.length_cons,
      Nat.pow_succ]
    omega

/-- The bytes that are sent are those of the sorted bits. -/
lemma ofBeBytes_encodeBinary {f : FloatFormat} {b : List UInt8} {w : ℕ} (hlen : b.length = w + 1)
    (hsize : f.half = 128 * 256 ^ w) : ofBeBytes (encodeBinary b) = f.sorted (ofBeBytes b) := by
  obtain ⟨first, rest, rfl⟩ : ∃ first rest, b = first :: rest :=
    List.exists_cons_of_length_pos (by omega)
  rw [List.length_cons, Nat.add_right_cancel_iff] at hlen
  obtain ⟨hsign, hset, -⟩ := signBit_byte first
  have hrest := ofBeBytes_lt rest
  rw [hlen] at hrest
  rw [encodeBinary, FloatFormat.sorted, hsize]
  by_cases hpositive : first.toNat < 128
  · have hlt : ofBeBytes (first :: rest) < 128 * 256 ^ w := by
      have hle : (first.toNat + 1) * 256 ^ w ≤ 128 * 256 ^ w := Nat.mul_le_mul_right _ hpositive
      rw [Nat.add_mul, Nat.one_mul] at hle
      rw [ofBeBytes_cons, hlen]
      omega
    rw [if_pos (hsign.2 hpositive), if_pos hlt, ofBeBytes_cons, ofBeBytes_cons, hset hpositive,
      hlen]
    ring
  · have hge : ¬ ofBeBytes (first :: rest) < 128 * 256 ^ w := by
      have hle : 128 * 256 ^ w ≤ first.toNat * 256 ^ w :=
        Nat.mul_le_mul_right _ (Nat.not_lt.1 hpositive)
      rw [ofBeBytes_cons, hlen]
      omega
    have hcomplement := ofBeBytes_complement (first :: rest)
    rw [List.length_cons, hlen, Nat.pow_succ] at hcomplement
    rw [if_neg (mt hsign.1 hpositive), if_neg hge]
    omega

/-- **The bytes of a number are ordered as the values**, with the negative zero before the other
one. -/
theorem encodeBinary_lt_iff {f : FloatFormat} {w n k : ℕ} (hsize : f.half = 128 * 256 ^ w)
    (hn : ¬ f.IsNan n) (hk : ¬ f.IsNan k) (hnsize : n < 2 * f.half) (hksize : k < 2 * f.half) :
    encodeBinary (toBeBytes (w + 1) n) < encodeBinary (toBeBytes (w + 1) k) ↔
      f.value n < f.value k ∨ n = f.half ∧ k = 0 := by
  have hbytes : ∀ m, m < 2 * f.half →
      ofBeBytes (encodeBinary (toBeBytes (w + 1) m)) = f.sorted m := by
    intro m hm
    rw [ofBeBytes_encodeBinary (length_toBeBytes _ _) hsize, ofBeBytes_of_lt]
    rw [Nat.pow_succ]
    omega
  rw [← f.sorted_lt_iff hn hk hnsize hksize, ← hbytes n hnsize, ← hbytes k hksize]
  refine (ofBeBytes_lt_iff ?_).symm
  rw [length_encodeBinary, length_encodeBinary, length_toBeBytes, length_toBeBytes]

lemma half_single : single.half = 2 ^ 31 := rfl

lemma half_double : double.half = 2 ^ 63 := rfl

/-- **Both types are sorted by their bytes**: of two numbers the one with the smaller value has the
smaller bytes, and of the two zeros the negative one. -/
theorem binary_ordered :
    (∀ a b : UInt32, ¬ single.IsNan a.toNat → ¬ single.IsNan b.toNat →
      (encodeBinary (toBeBytes 4 a.toNat) < encodeBinary (toBeBytes 4 b.toNat) ↔
        single.value a.toNat < single.value b.toNat ∨ a = 0x80000000 ∧ b = 0)) ∧
    ∀ a b : UInt64, ¬ double.IsNan a.toNat → ¬ double.IsNan b.toNat →
      (encodeBinary (toBeBytes 8 a.toNat) < encodeBinary (toBeBytes 8 b.toNat) ↔
        double.value a.toNat < double.value b.toNat ∨ a = 0x8000000000000000 ∧ b = 0) := by
  constructor
  · intro a b ha hb
    have hsize : single.half = 128 * 256 ^ 3 := by norm_num [half_single]
    have hfits : ∀ c : UInt32, c.toNat < 2 * single.half := fun c => by
      have hlt := c.toNat_lt
      rw [half_single]
      omega
    rw [encodeBinary_lt_iff hsize ha hb (hfits a) (hfits b), half_single, ← UInt32.toNat_inj,
      ← UInt32.toNat_inj]
    rfl
  · intro a b ha hb
    have hsize : double.half = 128 * 256 ^ 7 := by norm_num [half_double]
    have hfits : ∀ c : UInt64, c.toNat < 2 * double.half := fun c => by
      have hlt := c.toNat_lt
      rw [half_double]
      omega
    rw [encodeBinary_lt_iff hsize ha hb (hfits a) (hfits b), half_double, ← UInt64.toNat_inj,
      ← UInt64.toNat_inj]
    rfl

/-- Minus one and a half is sorted before two, and the negative zero before the other one. -/
theorem doubles_ordered :
    encodeBinary (toBeBytes 8 (0xbff8000000000000 : UInt64).toNat) <
      encodeBinary (toBeBytes 8 (0x4000000000000000 : UInt64).toNat) ∧
    encodeBinary (toBeBytes 8 (0x8000000000000000 : UInt64).toNat) <
      encodeBinary (toBeBytes 8 (0 : UInt64).toNat) := by
  constructor
  · refine (binary_ordered.2 _ _ (by decide) (by decide)).2 (.inl ?_)
    rw [FloatFormat.value_lt_iff (by decide) (by decide)]
    decide +kernel
  · exact (binary_ordered.2 _ _ (by decide) (by decide)).2 (.inr ⟨rfl, rfl⟩)

/-! ### Numbers that come back -/

/-- What is read of a bind is what has been sent. -/
lemma sortable_encodeBinary (b : List UInt8) : sortable (encodeBinary b) = b := by
  have hsame : ∀ raw, sortable raw = decodeBinary raw := by
    intro raw
    cases raw with
    | nil => rfl
    | cons first rest => exact ite_not _ _ _
  rw [hsame, decodeBinary_encodeBinary]

/-- The sign, the exponent and the fraction of a number of 32 bits. -/
lemma exists_bits {n : ℕ} (hn : n < 2 ^ 32) :
    ∃ negative x r, x ≤ 255 ∧ r < 2 ^ 23 ∧ n = single.bits negative x r := by
  refine ⟨decide (2 ^ 31 ≤ n), n / 2 ^ 23 % 2 ^ 8, n % 2 ^ 23, by omega, by omega, ?_⟩
  rw [FloatFormat.bits, half_single]
  simp only [decide_eq_true_eq, single]
  split_ifs <;> omega

lemma lastExponent_single : single.lastExponent = 255 := rfl

lemma lastExponent_double : double.lastExponent = 2047 := rfl

/-- A fraction below a number with so many bits, over more of them. -/
lemma log2_bounds {r : ℕ} (hr : r < 2 ^ 23) (hne : r ≠ 0) :
    r.log2 < 23 ∧ 2 ^ r.log2 ≤ r ∧ r < 2 ^ (r.log2 + 1) := by
  have hlow := Nat.log2_self_le hne
  refine ⟨?_, hlow, Nat.lt_log2_self⟩
  exact (Nat.pow_lt_pow_iff_right Nat.one_lt_two).1 (hlow.trans_lt hr)

/-- The parts of a number of 32 bits. -/
lemma parts_bits (negative : Bool) {x r : ℕ} (hx : x ≤ 255) (hr : r < 2 ^ 23) :
    single.bits negative x r / 2 ^ 31 = (if negative then 1 else 0) ∧
      single.bits negative x r / 2 ^ 23 % 2 ^ 8 = x ∧ single.bits negative x r % 2 ^ 23 = r := by
  have hbits : single.bits negative x r =
      (if negative then 2 ^ 31 else 0) + (x * 2 ^ 23 + r) := rfl
  rw [hbits]
  cases negative
  · simp only [Bool.false_eq_true, if_false]
    omega
  · simp only [if_true]
    omega

/-- Bits of the wider format. -/
lemma bits_double (negative : Bool) (x r : ℕ) : (if negative then 1 else 0) * 2 ^ 63 +
    (x * 2 ^ 52 + r) = double.bits negative x r := by
  have hbits : double.bits negative x r =
      (if negative then 2 ^ 63 else 0) + (x * 2 ^ 52 + r) := rfl
  rw [hbits]
  cases negative
  · simp
  · simp

/-- An infinity, or no number, in the wider format. -/
lemma widen_last (negative : Bool) {r : ℕ} (hr : r < 2 ^ 23) :
    ∃ r', widen (single.bits negative 255 r) = double.bits negative 2047 r' ∧ r' < 2 ^ 52 ∧
      (r = 0 ↔ r' = 0) := by
  obtain ⟨hsign, hexponent, hmantissa⟩ := parts_bits negative (Nat.le_refl 255) hr
  have hquiet : r ||| 2 ^ 22 < 2 ^ 23 := Nat.or_lt_two_pow hr (by omega)
  have hbit : 2 ^ 22 ≤ r ||| 2 ^ 22 := Nat.right_le_or
  refine ⟨if r = 0 then 0 else (r ||| 2 ^ 22) * 2 ^ 29, ?_, ?_, ?_⟩
  · rw [widen, hsign, hexponent, hmantissa, if_pos rfl, bits_double]
  · split_ifs <;> omega
  · split_ifs with hzero
    · exact iff_of_true hzero rfl
    · exact iff_of_false hzero (by omega)

/-- How often the smallest number of the narrower format has to be halved for that of the wider
one. -/
def finer : ℕ := 925

/-- A finite number in the wider format is the same multiple, in smaller units. -/
lemma widen_finite (negative : Bool) {x r : ℕ} (hx : x < 255) (hr : r < 2 ^ 23) :
    ∃ x' r', widen (single.bits negative x r) = double.bits negative x' r' ∧ x' < 2047 ∧
      r' < 2 ^ 52 ∧ (if x' = 0 then r' else (2 ^ 52 + r') * 2 ^ (x' - 1)) =
        (if x = 0 then r else (2 ^ 23 + r) * 2 ^ (x - 1)) * 2 ^ finer := by
  obtain ⟨hsign, hexponent, hmantissa⟩ := parts_bits negative hx.le hr
  have hwiden : widen (single.bits negative x r) = (if negative then 1 else 0) * 2 ^ 63 +
      if x ≠ 0 then (x + 896) * 2 ^ 52 + r * 2 ^ 29
      else if r = 0 then 0
      else (r.log2 + 874) * 2 ^ 52 + (r - 2 ^ r.log2) * 2 ^ (52 - r.log2) := by
    rw [widen, hsign, hexponent, hmantissa, if_neg hx.ne]
  by_cases hzero : x = 0
  · subst hzero
    rw [if_neg (not_not.2 rfl)] at hwiden
    by_cases hnone : r = 0
    · subst hnone
      rw [if_pos rfl] at hwiden
      refine ⟨0, 0, hwiden.trans (bits_double negative 0 0), by omega, by omega, ?_⟩
      rw [if_pos rfl, if_pos rfl, Nat.zero_mul]
    · -- a number below the least normal one has an exponent of its own there
      rw [if_neg hnone] at hwiden
      obtain ⟨hl, hlow, hhigh⟩ := log2_bounds hr hnone
      generalize r.log2 = l at *
      have hfraction : (r - 2 ^ l) * 2 ^ (52 - l) < 2 ^ 52 := by
        have hlt : r - 2 ^ l < 2 ^ l := by
          rw [Nat.pow_succ] at hhigh
          omega
        calc (r - 2 ^ l) * 2 ^ (52 - l)
            < 2 ^ l * 2 ^ (52 - l) := Nat.mul_lt_mul_of_pos_right hlt (Nat.pow_pos Nat.two_pos)
          _ = 2 ^ 52 := by rw [← Nat.pow_add, Nat.add_sub_cancel' (by omega)]
      refine ⟨l + 874, (r - 2 ^ l) * 2 ^ (52 - l), hwiden.trans (bits_double _ _ _), by omega,
        hfraction, ?_⟩
      rw [if_neg (by omega), if_pos rfl]
      have hpow : 2 ^ 52 = 2 ^ l * 2 ^ (52 - l) := by
        rw [← Nat.pow_add, Nat.add_sub_cancel' (by omega)]
      have hexp : 52 - l + (l + 874 - 1) = finer := by
        rw [finer]
        omega
      rw [hpow, ← Nat.add_mul, Nat.add_sub_cancel' hlow, Nat.mul_assoc, ← Nat.pow_add, hexp]
  · rw [if_pos hzero] at hwiden
    refine ⟨x + 896, r * 2 ^ 29, hwiden.trans (bits_double _ _ _), by omega, by omega, ?_⟩
    rw [if_neg (by omega), if_neg hzero]
    have hsum : 2 ^ 52 + r * 2 ^ 29 = (2 ^ 23 + r) * 2 ^ 29 := by
      rw [Nat.add_mul, ← Nat.pow_add]
    have hexp : 29 + (x + 896 - 1) = x - 1 + finer := by
      rw [finer]
      omega
    rw [hsum, Nat.mul_assoc, Nat.mul_assoc, ← Nat.pow_add, ← Nat.pow_add, hexp]

/-- The wider bits fit. -/
lemma widen_lt {n : ℕ} (hn : n < 2 ^ 32) : widen n < 2 ^ 64 := by
  obtain ⟨negative, x, r, hx, hr, rfl⟩ := exists_bits hn
  obtain ⟨y, q, hwiden, hy, hq⟩ : ∃ y q, widen (single.bits negative x r) =
      double.bits negative y q ∧ y ≤ 2047 ∧ q < 2 ^ 52 := by
    rcases Nat.lt_or_eq_of_le hx with hfinite | rfl
    · obtain ⟨y, q, hwiden, hy, hq, -⟩ := widen_finite negative hfinite hr
      exact ⟨y, q, hwiden, hy.le, hq⟩
    · obtain ⟨q, hwiden, hq, -⟩ := widen_last negative hr
      exact ⟨2047, q, hwiden, Nat.le_refl _, hq⟩
  rw [hwiden, ← bits_double]
  cases negative
  · simp only [Bool.false_eq_true, if_false]
    omega
  · simp only [if_true]
    omega

/-- The smallest number of one format in terms of that of the other. -/
lemma unit_single : single.unit = 2 ^ finer * double.unit := by
  have hsingle : single.unit = 2 ^ (-149 : ℤ) := rfl
  have hdouble : double.unit = 2 ^ (-1074 : ℤ) := rfl
  rw [hsingle, hdouble, ← zpow_natCast, ← zpow_add₀ two_ne_zero]
  rfl

/-- **A number in the wider format has the same sign and the same value**, and is one if and only
if it was. -/
theorem widen_value {n : ℕ} (hn : n < 2 ^ 32) :
    (double.IsNan (widen n) ↔ single.IsNan n) ∧ (double.half ≤ widen n ↔ single.half ≤ n) ∧
      double.value (widen n) = single.value n := by
  obtain ⟨negative, x, r, hx, hr, rfl⟩ := exists_bits hn
  have hx' : x ≤ single.lastExponent := hx
  have hr' : r < 2 ^ single.fractionBits := hr
  rcases Nat.lt_or_eq_of_le hx with hfinite | rfl
  · obtain ⟨y, q, hwiden, hy, hq, hunits⟩ := widen_finite negative hfinite hr
    have hy' : y ≤ double.lastExponent := hy.le
    have hq' : q < 2 ^ double.fractionBits := hq
    have hsigned : double.signedUnits (double.bits negative y q) =
        single.signedUnits (single.bits negative x r) * 2 ^ finer := by
      rw [FloatFormat.signedUnits, FloatFormat.signedUnits, FloatFormat.units_bits hy' hq',
        FloatFormat.units_bits hx' hr']
      simp only [FloatFormat.half_le_bits hy' hq', FloatFormat.half_le_bits hx' hr']
      have hcast : (((if y = 0 then q else (2 ^ 52 + q) * 2 ^ (y - 1) : ℕ)) : ℤ) =
          ((if x = 0 then r else (2 ^ 23 + r) * 2 ^ (x - 1) : ℕ) : ℤ) * 2 ^ finer := by
        rw [hunits]
        push_cast
        rfl
      cases negative
      · exact hcast
      · exact (congrArg Neg.neg hcast).trans (neg_mul _ _).symm
    rw [hwiden]
    refine ⟨?_, ?_, ?_⟩
    · rw [FloatFormat.IsNan, FloatFormat.IsNan, FloatFormat.exponent_bits hy' hq',
        FloatFormat.exponent_bits hx' hr', lastExponent_single, lastExponent_double]
      exact iff_of_false (fun h => hy.ne h.1) fun h => hfinite.ne h.1
    · rw [FloatFormat.half_le_bits hy' hq', FloatFormat.half_le_bits hx' hr']
    · rw [FloatFormat.value, FloatFormat.value, FloatFormat.exponent_bits hy' hq',
        FloatFormat.exponent_bits hx' hr', lastExponent_single, lastExponent_double, if_neg hy.ne,
        if_neg hfinite.ne, hsigned, unit_single]
      push_cast
      rw [mul_assoc]
  · obtain ⟨q, hwiden, hq, hzero⟩ := widen_last negative hr
    have hy' : 2047 ≤ double.lastExponent := Nat.le_refl _
    have hq' : q < 2 ^ double.fractionBits := hq
    rw [hwiden]
    refine ⟨?_, ?_, ?_⟩
    · rw [FloatFormat.IsNan, FloatFormat.IsNan, FloatFormat.exponent_bits hy' hq',
        FloatFormat.exponent_bits hx' hr', FloatFormat.fraction_bits hy' hq',
        FloatFormat.fraction_bits hx' hr', Ne, Ne, hzero]
      exact and_congr_left' (iff_of_true rfl rfl)
    · rw [FloatFormat.half_le_bits hy' hq', FloatFormat.half_le_bits hx' hr']
    · rw [FloatFormat.value, FloatFormat.value, FloatFormat.exponent_bits hy' hq',
        FloatFormat.exponent_bits hx' hr', if_pos lastExponent_double.symm,
        if_pos lastExponent_single.symm]
      simp only [FloatFormat.half_le_bits hy' hq', FloatFormat.half_le_bits hx' hr']

/-- **A number that comes back is the number that has been sent**: a `BINARY_DOUBLE` bit for bit,
and a `BINARY_FLOAT` as the number in the wider format with the same sign and value. -/
theorem binary_returned :
    (∀ bits : UInt64, decodeBindValue 101 (some (encodeBinary (toBeBytes 8 bits.toNat))) =
      .ok (.binaryDouble bits)) ∧
    ∀ bits : UInt32, ∃ wide : UInt64,
      decodeBindValue 100 (some (encodeBinary (toBeBytes 4 bits.toNat))) =
        .ok (.binaryDouble wide) ∧
      (double.IsNan wide.toNat ↔ single.IsNan bits.toNat) ∧
      (double.half ≤ wide.toNat ↔ single.half ≤ bits.toNat) ∧
      double.value wide.toNat = single.value bits.toNat := by
  constructor
  · intro bits
    have hsent : ofBeBytes (toBeBytes 8 bits.toNat) = bits.toNat := ofBeBytes_of_lt bits.toNat_lt
    have hlength : (encodeBinary (toBeBytes 8 bits.toNat)).length = 8 := by
      rw [length_encodeBinary, length_toBeBytes]
    have hdecode : decodeBindValue 101 (some (encodeBinary (toBeBytes 8 bits.toNat))) =
        if (encodeBinary (toBeBytes 8 bits.toNat)).length = 8 then
          .ok (.binaryDouble (UInt64.ofNat (ofBeBytes (sortable (encodeBinary
            (toBeBytes 8 bits.toNat))))))
        else .error "BINARY_DOUBLE bind must be 8 bytes" := rfl
    rw [hdecode, if_pos hlength, sortable_encodeBinary, hsent, UInt64.ofNat_toNat]
  · intro bits
    have hsent : ofBeBytes (toBeBytes 4 bits.toNat) = bits.toNat := ofBeBytes_of_lt bits.toNat_lt
    have hlength : (encodeBinary (toBeBytes 4 bits.toNat)).length = 4 := by
      rw [length_encodeBinary, length_toBeBytes]
    have hdecode : decodeBindValue 100 (some (encodeBinary (toBeBytes 4 bits.toNat))) =
        if (encodeBinary (toBeBytes 4 bits.toNat)).length = 4 then
          .ok (.binaryDouble (UInt64.ofNat (widen (ofBeBytes (sortable (encodeBinary
            (toBeBytes 4 bits.toNat)))))))
        else .error "BINARY_FLOAT bind must be 4 bytes" := rfl
    have hwide : (UInt64.ofNat (widen bits.toNat)).toNat = widen bits.toNat :=
      UInt64.toNat_ofNat_of_lt' (widen_lt bits.toNat_lt)
    refine ⟨UInt64.ofNat (widen bits.toNat), ?_, ?_⟩
    · rw [hdecode, if_pos hlength, sortable_encodeBinary, hsent]
    · rw [hwide]
      exact widen_value bits.toNat_lt

end DbSaci.Backend
