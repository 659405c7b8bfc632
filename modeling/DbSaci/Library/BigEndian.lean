import Mathlib.Tactic.Ring

set_option relaxedAutoImplicit false
set_option autoImplicit false

/-!
# Big-endian numbers

## Main definitions

* `ofBeBytes`, `toBeBytes` — a number from its bytes, and so many bytes of a number.

## Main results

* `ofBeBytes_toBeBytes` — reading so many bytes of a number gives what fits into them.
* `ofBeBytes_inj` — as many bytes of the same number are the same.
* `ofBeBytes_lt_iff` — as many bytes are ordered as the numbers.
-/

/-- The number that some bytes are, the first one being the highest. -/
def ofBeBytes (s : List UInt8) : ℕ := s.foldl (fun n b => n * 256 + b.toNat) 0

/-- So many bytes of a number, the highest first. -/
def toBeBytes : ℕ → ℕ → List UInt8
  | 0, _ => []
  | k + 1, n => UInt8.ofNat (n / 256 ^ k) :: toBeBytes k n

@[simp]
lemma length_toBeBytes (k n : ℕ) : (toBeBytes k n).length = k := by
  induction k with
  | zero => rfl
  | succ k ih => rw [toBeBytes, List.length_cons, ih]

lemma toBeBytes_four (n : ℕ) : toBeBytes 4 n = [UInt8.ofNat (n / 16777216),
    UInt8.ofNat (n / 65536), UInt8.ofNat (n / 256), UInt8.ofNat n] := by
  rw [toBeBytes, toBeBytes, toBeBytes, toBeBytes, toBeBytes, Nat.pow_zero, Nat.div_one]
  rfl

lemma foldl_toBeBytes (k n acc : ℕ) :
    (toBeBytes k n).foldl (fun n b => n * 256 + b.toNat) acc = acc * 256 ^ k + n % 256 ^ k := by
  induction k generalizing acc with
  | zero => simp [toBeBytes, Nat.mod_one]
  | succ k ih =>
    have hbyte : (UInt8.ofNat (n / 256 ^ k)).toNat = n / 256 ^ k % 256 := UInt8.toNat_ofNat'
    -- the byte in front counts for the part above the bytes behind it
    have hsplit : n % 256 ^ (k + 1) = n / 256 ^ k % 256 * 256 ^ k + n % 256 ^ k := by
      rw [pow_succ, Nat.mod_mul, Nat.add_comm, Nat.mul_comm (256 ^ k)]
    rw [toBeBytes, List.foldl_cons, ih, hbyte, hsplit]
    ring

/-- **Reading so many bytes of a number gives what fits into them.** -/
theorem ofBeBytes_toBeBytes (k n : ℕ) : ofBeBytes (toBeBytes k n) = n % 256 ^ k := by
  rw [ofBeBytes, foldl_toBeBytes, Nat.zero_mul, Nat.zero_add]

lemma ofBeBytes_of_lt {k n : ℕ} (h : n < 256 ^ k) : ofBeBytes (toBeBytes k n) = n := by
  rw [ofBeBytes_toBeBytes, Nat.mod_eq_of_lt h]

lemma foldl_ofBeBytes (s : List UInt8) (acc : ℕ) :
    s.foldl (fun n b => n * 256 + b.toNat) acc = acc * 256 ^ s.length + ofBeBytes s := by
  rw [ofBeBytes]
  induction s generalizing acc with
  | nil => simp
  | cons b s ih =>
    rw [List.foldl_cons, List.foldl_cons, ih, ih (0 * 256 + b.toNat), List.length_cons]
    ring

/-- The first byte is the highest one. -/
lemma ofBeBytes_cons (b : UInt8) (s : List UInt8) :
    ofBeBytes (b :: s) = b.toNat * 256 ^ s.length + ofBeBytes s := by
  rw [ofBeBytes, List.foldl_cons, Nat.zero_mul, Nat.zero_add, foldl_ofBeBytes]

/-- Some bytes are less than the next power. -/
lemma ofBeBytes_lt (s : List UInt8) : ofBeBytes s < 256 ^ s.length := by
  induction s with
  | nil => exact Nat.one_pos
  | cons b s ih =>
    have hb := b.toNat_lt
    rw [ofBeBytes_cons, List.length_cons, pow_succ]
    calc b.toNat * 256 ^ s.length + ofBeBytes s
        < b.toNat * 256 ^ s.length + 256 ^ s.length := Nat.add_lt_add_left ih _
      _ = (b.toNat + 1) * 256 ^ s.length := by ring
      _ ≤ 256 * 256 ^ s.length := Nat.mul_le_mul_right _ hb
      _ = 256 ^ s.length * 256 := Nat.mul_comm _ _

/-- As many bytes of the same number are the same. -/
lemma ofBeBytes_inj {s t : List UInt8} (hlen : s.length = t.length)
    (h : ofBeBytes s = ofBeBytes t) : s = t := by
  induction s generalizing t with
  | nil => exact (List.eq_nil_of_length_eq_zero hlen.symm).symm
  | cons b s ih =>
    rw [List.length_cons] at hlen
    obtain ⟨c, t, rfl⟩ : ∃ c u, t = c :: u := List.exists_cons_of_length_pos (by omega)
    have hlen' : s.length = t.length := Nat.succ.inj hlen
    have hs := ofBeBytes_lt s
    have ht := ofBeBytes_lt t
    rw [ofBeBytes_cons, ofBeBytes_cons, ← hlen'] at h
    rw [← hlen'] at ht
    -- quotient and remainder by the power of the bytes behind
    have hbyte : b.toNat = c.toNat := by
      have hdiv := congrArg (· / 256 ^ s.length) h
      have hpos : 0 < 256 ^ s.length := Nat.pow_pos (by decide)
      simp only [Nat.mul_comm _ (256 ^ s.length), Nat.mul_add_div hpos, Nat.div_eq_of_lt hs,
        Nat.div_eq_of_lt ht, Nat.add_zero] at hdiv
      exact hdiv
    rw [hbyte, Nat.add_left_cancel_iff] at h
    rw [UInt8.toNat_inj.1 hbyte, ih hlen' h]

/-- **Bytes are ordered as the numbers they are**, if there are as many of them. -/
theorem ofBeBytes_lt_iff {s t : List UInt8} (hlen : s.length = t.length) :
    ofBeBytes s < ofBeBytes t ↔ s < t := by
  induction s generalizing t with
  | nil =>
    obtain rfl := List.eq_nil_of_length_eq_zero hlen.symm
    exact iff_of_false (Nat.lt_irrefl _) (List.not_lt_nil [])
  | cons b s ih =>
    rw [List.length_cons] at hlen
    obtain ⟨c, t, rfl⟩ : ∃ c u, t = c :: u := List.exists_cons_of_length_pos (by omega)
    have hlen' : s.length = t.length := Nat.succ.inj hlen
    have hs := ofBeBytes_lt s
    have ht := ofBeBytes_lt t
    rw [← hlen'] at ht
    rw [List.cons_lt_cons_iff, UInt8.lt_iff_toNat_lt, ← UInt8.toNat_inj, ← ih hlen',
      ofBeBytes_cons, ofBeBytes_cons, ← hlen']
    rcases Nat.lt_trichotomy b.toNat c.toNat with hlt | heq | hgt
    · have hle : (b.toNat + 1) * 256 ^ s.length ≤ c.toNat * 256 ^ s.length :=
        Nat.mul_le_mul_right _ hlt
      rw [Nat.add_mul, Nat.one_mul] at hle
      exact iff_of_true (by omega) (.inl hlt)
    · rw [heq]
      omega
    · have hle : (c.toNat + 1) * 256 ^ s.length ≤ b.toNat * 256 ^ s.length :=
        Nat.mul_le_mul_right _ hgt
      rw [Nat.add_mul, Nat.one_mul] at hle
      exact iff_of_false (by omega) (by omega)
