import Mathlib.Algebra.Order.Ring.Nat
import Mathlib.Tactic.Ring

set_option relaxedAutoImplicit false
set_option autoImplicit false

/-!
# Decimal digits

## Main definitions

* `Decimal.padded`, `Decimal.takeNumber` — a number with leading zeros, and so many digits read.
* `Decimal.ofDigits` — the number that some digits are, the highest first.
* `Decimal.strip` — a text behind a fixed text.

## Main results

* `Decimal.takeNumber_padded` — a number that fits is read back.
* `Decimal.ofDigits_append` — digits behind digits.
-/

namespace Decimal

/-- A number in so many digits at least. -/
def padded (w n : ℕ) : List Char :=
  List.replicate (w - (Nat.toDigits 10 n).length) '0' ++ Nat.toDigits 10 n

/-- An integer in so many characters at least, a minus sign being one of them. -/
def paddedInt (w : ℕ) (n : ℤ) : List Char :=
  if n < 0 then '-' :: padded (w - 1) n.natAbs else padded w n.natAbs

/-- An integer with its sign, in so many characters at least. -/
def signedInt (w : ℕ) (n : ℤ) : List Char :=
  (if n < 0 then '-' else '+') :: padded (w - 1) n.natAbs

/-- The text behind a fixed text. -/
def strip (p s : List Char) : Option (List Char) :=
  if p <+: s then some (s.drop p.length) else none

@[simp]
lemma strip_append (p s : List Char) : strip p (p ++ s) = some s := by
  rw [strip, if_pos (List.prefix_append p s), List.drop_left]

@[simp]
lemma strip_cons (c : Char) (s : List Char) : strip [c] (c :: s) = some s := strip_append [c] s

/-- So many digits, and what stands behind them. -/
def takeNumber (w : ℕ) (s : List Char) : Option (ℕ × List Char) :=
  if (s.take w).length = w ∧ (s.take w).all Char.isDigit then
    some (Nat.ofDigitChars 10 (s.take w) 0, s.drop w)
  else none

lemma isDigit_padded {w n : ℕ} {c : Char} (hc : c ∈ padded w n) : c.isDigit = true := by
  rcases List.mem_append.1 hc with hzero | hdigit
  · rw [List.eq_of_mem_replicate hzero]
    rfl
  · exact Nat.isDigit_of_mem_toDigits (by decide) (by decide) hdigit

lemma length_padded {w n : ℕ} (hw : 0 < w) (h : n < 10 ^ w) : (padded w n).length = w := by
  have hle := (Nat.length_toDigits_le_iff (by decide) hw).2 h
  rw [padded, List.length_append, List.length_replicate]
  omega

lemma ofDigitChars_padded (w n : ℕ) : Nat.ofDigitChars 10 (padded w n) 0 = n := by
  rw [padded, Nat.ofDigitChars_append, Nat.ofDigitChars_replicate_zero, Nat.mul_zero,
    Nat.ofDigitChars_ten_toDigits]

/-- **A number that fits is read back.** -/
theorem takeNumber_padded {w n : ℕ} (hw : 0 < w) (h : n < 10 ^ w) (s : List Char) :
    takeNumber w (padded w n ++ s) = some (n, s) := by
  have hlen := length_padded hw h
  rw [takeNumber, List.take_left' hlen, List.drop_left' hlen, ofDigitChars_padded]
  exact if_pos ⟨hlen, List.all_eq_true.2 fun c hc => isDigit_padded hc⟩

lemma takeNumber_two {n : ℕ} (h : n < 100) (s : List Char) :
    takeNumber 2 (padded 2 n ++ s) = some (n, s) := takeNumber_padded (by decide) h s

/-! ### Lists of digits -/

/-- The number that some digits are, the highest first. -/
def ofDigits (ds : List ℕ) : ℕ := ds.foldl (fun n d => n * 10 + d) 0

lemma foldl_digits (ds : List ℕ) (n : ℕ) :
    ds.foldl (fun n d => n * 10 + d) n = n * 10 ^ ds.length + ofDigits ds := by
  induction ds generalizing n with
  | nil => simp [ofDigits]
  | cons d ds ih =>
    rw [ofDigits, List.foldl_cons, List.foldl_cons, ih, ih (0 * 10 + d), List.length_cons]
    ring

/-- **Digits behind digits.** -/
theorem ofDigits_append (a b : List ℕ) :
    ofDigits (a ++ b) = ofDigits a * 10 ^ b.length + ofDigits b := by
  rw [ofDigits, List.foldl_append]
  exact foldl_digits b _

@[simp]
lemma ofDigits_replicate_zero (n : ℕ) : ofDigits (List.replicate n 0) = 0 := by
  induction n with
  | zero => rfl
  | succ n ih =>
    rw [List.replicate_succ, ← List.singleton_append, ofDigits_append, ih]
    simp [ofDigits]

/-- The value of a digit. -/
def digitVal (c : Char) : ℕ := c.toNat - '0'.toNat

lemma ofDigitChars_eq (s : List Char) : Nat.ofDigitChars 10 s 0 = ofDigits (s.map digitVal) := by
  rw [Nat.ofDigitChars_eq_foldl, ofDigits, List.foldl_map]
  congr 1
  funext n c
  rw [Nat.mul_comm, digitVal]

end Decimal
