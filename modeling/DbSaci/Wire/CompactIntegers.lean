import DbSaci.Wire.JdbcDescribe

set_option relaxedAutoImplicit false
set_option autoImplicit false

/-!
# Compact integers

A number is written with the number of its bytes in front. A writer uses one, two, four or eight
bytes; a reader takes any number up to the largest one. The sign of a small negative number is
written into the byte of the length, where the reader does not look for it.

## Main definitions

* `readSb2` — a signed number of at most two bytes.
* `SignKept`, `LengthReadOnce` — the numbers and the lengths for which the reader agrees.

## Main results

* `readSb2_writeSb2_iff` — a signed number is read back if and only if it is none from -127 to -1.
* `readUb8_iff` — a number of up to eight bytes is read, unless it has five, six or seven.
* `compact_integers_iff` — what is read back among the compact integers.
-/

namespace DbSaci.Wire

open Fallible (ret fail)

/-- `read_sb2`: the sign in the byte of the length is masked away. -/
def readSb2 : Read Int16 := do
  let n ← readUbLength
  if n = 0 then ret 0
  else if n = 1 then do
    let b ← readU8
    ret b.toInt8.toInt16
  else if n = 2 then do
    let v ← readU16Be
    ret (UInt16.ofNat v).toInt16
  else fail (.invalidLengthIndicator n)

/-- A number whose sign does not stand in the byte of its length. -/
def SignKept (v : Int16) : Prop := ¬ (-127 ≤ v ∧ v < 0)

/-- A length that the reader of long numbers reads once. -/
def LengthReadOnce (n : ℕ) : Prop := n ≤ 4 ∨ n = 8

variable (rest : List UInt8)

/-! ### Signed numbers -/

/-- One byte is read as a signed one, with and without the mark of the sign. -/
lemma readSb2_byte (sign b : UInt8) (hsign : sign = 1 ∨ sign = 0x81) :
    readSb2 (sign :: b :: rest) = (.ok b.toInt8.toInt16, rest) := by
  have hlength : readUbLength (sign :: b :: rest) = (.ok 1, b :: rest) := by
    rw [readUbLength_cons]
    rcases hsign with rfl | rfl <;> rfl
  rw [readSb2, Fallible.bind_of_ok hlength]
  exact Fallible.bind_of_ok (readU8_cons _ _)

/-- Two bytes are read as a signed number. -/
lemma readSb2_short (v : Int16) :
    readSb2 ((2 ||| 0x80) :: (toBeBytes 2 v.toUInt16.toNat ++ rest)) = (.ok v, rest) := by
  have hbytes : readU16Be (toBeBytes 2 v.toUInt16.toNat ++ rest) =
      (.ok v.toUInt16.toNat, rest) := by
    rw [readU16Be, Fallible.bind_of_ok (readBytesVec_toBeBytes rest 2 _),
      ofBeBytes_of_lt v.toUInt16.toNat_lt]
    rfl
  have hlength : readUbLength ((2 ||| 0x80) :: (toBeBytes 2 v.toUInt16.toNat ++ rest)) =
      (.ok 2, toBeBytes 2 v.toUInt16.toNat ++ rest) := readUbLength_cons _ _
  rw [readSb2, Fallible.bind_of_ok hlength]
  refine (Fallible.bind_of_ok hbytes).trans ?_
  rw [UInt16.ofNat_toNat, Int16.toInt16_toUInt16]
  rfl

/-- A number that fits into a signed byte. -/
lemma toInt16_toInt8 {v : Int16} (hge : -128 ≤ v.toInt) (hle : v.toInt ≤ 127) :
    v.toInt8.toInt16 = v := by
  rw [← Int16.toInt_inj, Int8.toInt_toInt16, Int16.toInt_toInt8]
  exact Int.bmod_eq_of_le (by omega) (by omega)

/-- **A signed number is read back if and only if its sign stands in its own bytes.** -/
theorem readSb2_writeSb2_iff (v : Int16) :
    readSb2 (writeSb2 v ++ rest) = (.ok v, rest) ↔ SignKept v := by
  rw [SignKept, writeSb2]
  split_ifs with hzero hpos hneg
  · refine iff_of_true ?_ (by rw [hzero]; decide)
    rw [hzero, readSb2]
    exact Fallible.bind_of_ok (readUbLength_ofNat rest (k := 0) (by decide))
  · obtain ⟨hgt, hle⟩ := hpos
    rw [Int16.lt_iff_toInt_lt] at hgt
    rw [Int16.le_iff_toInt_le] at hle
    change 0 < v.toInt at hgt
    change v.toInt ≤ 127 at hle
    refine iff_of_true ?_ fun h => ?_
    · refine (readSb2_byte rest 1 _ (.inl rfl)).trans ?_
      rw [Int8.toInt8_toUInt8, toInt16_toInt8 (by omega) hle]
    · have hlt := Int16.lt_iff_toInt_lt.1 h.2
      change v.toInt < 0 at hlt
      omega
  · refine iff_of_false (fun h => ?_) (not_not.2 hneg)
    obtain ⟨hge, hlt⟩ := hneg
    rw [Int16.le_iff_toInt_le] at hge
    rw [Int16.lt_iff_toInt_lt] at hlt
    change -127 ≤ v.toInt at hge
    change v.toInt < 0 at hlt
    have hminus : (-v).toInt = -v.toInt := by
      rw [Int16.toInt_neg]
      exact Int.bmod_eq_of_le (by omega) (by omega)
    -- the reader finds the number without its sign
    have hread := (readSb2_byte rest (1 ||| 0x80) (-v).toInt8.toUInt8 (.inr rfl)).symm.trans h
    have hvalue := Except.ok.inj (Prod.mk.inj hread).1
    rw [Int8.toInt8_toUInt8, toInt16_toInt8 (by omega) (by omega)] at hvalue
    have hsame := congrArg Int16.toInt hvalue
    omega
  · exact iff_of_true (readSb2_short rest v) hneg

/-! ### Long numbers -/

/-- **A number of up to eight bytes is read if and only if its length is read once.** -/
theorem readUb8_iff {bytes : List UInt8} (hle : bytes.length ≤ 8) :
    readUb8 (UInt8.ofNat bytes.length :: (bytes ++ rest)) = (.ok (ofBeBytes bytes), rest) ↔
      LengthReadOnce bytes.length := by
  have hlt : bytes.length < 128 := by omega
  have hlen : (UInt8.ofNat bytes.length).toNat = bytes.length :=
    UInt8.toNat_ofNat_of_lt' (Nat.lt_trans hlt (by decide))
  have height : UInt8.ofNat bytes.length = 8 ↔ bytes.length = 8 := by
    rw [← UInt8.toNat_inj, hlen]
    rfl
  rw [readUb8, Fallible.bind_of_ok (readUbLength_ofNat _ hlt), hlen]
  by_cases honce : LengthReadOnce bytes.length
  · refine iff_of_true ?_ honce
    rw [if_pos (honce.imp_right height.2), Fallible.bind_of_ok (readBytesVec_append bytes rest)]
    rfl
  · refine iff_of_false (fun h => honce ?_) honce
    have hseven : bytes.length ≤ 7 := by
      rw [LengthReadOnce] at honce
      omega
    rw [if_neg (fun h => honce (h.imp_right height.1)), if_pos hseven] at h
    -- the first byte of the number is taken for its length
    obtain ⟨len, s, hlength, h⟩ := Fallible.of_bind_ok h
    obtain ⟨value, t, hvalue, h⟩ := Fallible.of_bind_ok h
    obtain ⟨hnumber, rfl⟩ := Prod.mk.inj h
    obtain ⟨hle', rfl, hrest⟩ := readBytesVec_ok hvalue
    cases bytes with
    | nil => exact .inl (Nat.zero_le _)
    | cons b bytes =>
      rw [List.cons_append, readUbLength_cons] at hlength
      obtain ⟨hb, rfl⟩ := Prod.mk.inj hlength
      obtain rfl := Except.ok.inj hb
      have hcount : (b &&& 0x7f).toNat = bytes.length := by
        have hlengths := congrArg List.length hrest
        rw [List.length_drop, List.length_append] at hlengths
        rw [List.length_append] at hle'
        omega
      rw [hcount, List.take_left] at hnumber
      have hnumber := Except.ok.inj hnumber
      rw [ofBeBytes_cons] at hnumber
      have hmod := Nat.mod_le (ofBeBytes bytes) (2 ^ 64)
      have hzero : b.toNat * 256 ^ bytes.length = 0 := by omega
      obtain hb | hpow := Nat.mul_eq_zero.1 hzero
      · obtain rfl : b = 0 := UInt8.toNat_inj.1 hb
        left
        rw [List.length_cons, ← hcount]
        decide
      · exact absurd hpow (Nat.pow_pos (by decide)).ne'

/-! ### Round trips -/

/-- **What is read back among the compact integers**: the numbers without a sign, the signed ones
whose sign stands in their own bytes, and the long ones whose length is read once. -/
theorem compact_integers_iff (long : UInt64) (short : UInt32) (signed : Int16)
    {bytes : List UInt8} (hle : bytes.length ≤ 8) :
    readUb8 (writeUb8 long ++ rest) = (.ok long.toNat, rest) ∧
      readUb4 (writeUb4 short ++ rest) = (.ok short.toNat, rest) ∧
      (readSb2 (writeSb2 signed ++ rest) = (.ok signed, rest) ↔ SignKept signed) ∧
      (readUb8 (UInt8.ofNat bytes.length :: (bytes ++ rest)) = (.ok (ofBeBytes bytes), rest) ↔
        LengthReadOnce bytes.length) :=
  ⟨readUb8_writeUb8 rest long, readUb4_writeUb4 rest short, readSb2_writeSb2_iff rest signed,
    readUb8_iff rest hle⟩

/-- Three bytes behind a number of five: it is not read. -/
theorem compact_integers_iff_five :
    ¬ readUb8 ([5, 0, 0, 0, 1, 2] ++ [7, 8, 9]) = (.ok (ofBeBytes [0, 0, 0, 1, 2]), [7, 8, 9]) := by
  have hle : ([0, 0, 0, 1, 2] : List UInt8).length ≤ 8 := by decide
  intro h
  have hlength := (compact_integers_iff [7, 8, 9] 0 0 0 hle).2.2.2.1 h
  revert hlength
  unfold LengthReadOnce
  decide

/-- The number -1 is read as 1, and five bytes are read as none. -/
theorem compact_integers_counterexample :
    ¬ ((∀ (v : Int16) (rest : List UInt8), readSb2 (writeSb2 v ++ rest) = (.ok v, rest)) ∧
      ∀ bytes rest : List UInt8, bytes.length ≤ 8 →
        readUb8 (UInt8.ofNat bytes.length :: (bytes ++ rest)) = (.ok (ofBeBytes bytes), rest)) := by
  rintro ⟨hsb2, -⟩
  have hminus : readSb2 (writeSb2 (-1)) = (.ok 1, []) := by decide
  have hread := (hsb2 (-1) []).symm.trans hminus
  have hvalue := Except.ok.inj (Prod.mk.inj hread).1
  revert hvalue
  decide

end DbSaci.Wire
