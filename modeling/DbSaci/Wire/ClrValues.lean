import DbSaci.Wire.JdbcDescribe

set_option relaxedAutoImplicit false
set_option autoImplicit false

/-!
# Values with their length in front

A value that may be missing is written behind its length. A short value has a length of one byte,
and three bytes that are no such length stand for a missing value, a long one and an escaped one. A
long value is written chunk by chunk, each with its own length, up to an empty one.

## Main definitions

* `writeBytesWithLength` — a value with its length in front.

## Main results

* `readChunks_writeChunks` — the chunks of a long value are read back.
* `clr_round_trip` — a value is read back where it has been written, and nothing else is taken.
-/

namespace DbSaci.Wire

open Fallible (ret fail)

/-- `MAX_SHORT_LENGTH`. -/
def maxShortLength : ℕ := 252

/-- `CHUNK_SIZE`. -/
def chunkSize : ℕ := 32767

/-- The chunks of a long value, each with its length in front. -/
def writeChunks (data : List UInt8) : List UInt8 :=
  if data.length = 0 then []
  else
    let chunkLen := min data.length chunkSize
    writeUb4 (UInt32.ofNat chunkLen) ++ data.take chunkLen ++ writeChunks (data.drop chunkLen)
termination_by data.length
decreasing_by
  rw [List.length_drop, chunkSize]
  omega

/-- `write_bytes_with_length`. -/
def writeBytesWithLength : Option (List UInt8) → List UInt8
  | none => [255]
  | some data =>
    if data.length = 0 then [0]
    else if data.length ≤ maxShortLength then UInt8.ofNat data.length :: data
    else 254 :: (writeChunks data ++ writeUb4 0)

/-! ### Chunks -/

lemma writeChunks_nil : writeChunks [] = [] := by
  rw [writeChunks, if_pos List.length_nil]

/-- The first chunk of a value that is not empty. -/
lemma writeChunks_of_pos {data : List UInt8} (h : data.length ≠ 0) :
    writeChunks data = writeUb4 (UInt32.ofNat (min data.length chunkSize)) ++
      data.take (min data.length chunkSize) ++
      writeChunks (data.drop (min data.length chunkSize)) := by
  rw [writeChunks, if_neg h]

/-- The length of a chunk fits into four bytes. -/
lemma chunk_fits (n : ℕ) : (UInt32.ofNat (min n chunkSize)).toNat = min n chunkSize := by
  refine UInt32.toNat_ofNat_of_lt' ?_
  rw [chunkSize, UInt32.size]
  omega

/-- **The chunks of a long value are read back**, with any bytes behind them. -/
theorem readChunks_writeChunks (data rest : List UInt8) {fuel : ℕ} (hfuel : data.length < fuel) :
    readChunks fuel (writeChunks data ++ writeUb4 0 ++ rest) = (.ok data, rest) := by
  induction fuel generalizing data with
  | zero => exact absurd hfuel (Nat.not_lt_zero _)
  | succ fuel ih =>
    by_cases hzero : data.length = 0
    · -- an empty chunk stands behind the last one
      obtain rfl := List.eq_nil_of_length_eq_zero hzero
      rw [writeChunks_nil, List.nil_append, readChunks,
        Fallible.bind_of_ok (readUb4_writeUb4 rest 0)]
      rfl
    · have hpos : min data.length chunkSize ≠ 0 := by
        rw [chunkSize]
        omega
      have hshorter : (data.drop (min data.length chunkSize)).length < fuel := by
        rw [List.length_drop]
        omega
      have hchunk : (data.take (min data.length chunkSize)).length = min data.length chunkSize :=
        List.length_take_of_le (Nat.min_le_left _ _)
      rw [writeChunks_of_pos hzero, List.append_assoc, List.append_assoc, List.append_assoc,
        ← List.append_assoc (writeChunks _), readChunks,
        Fallible.bind_of_ok (readUb4_writeUb4 _ _), chunk_fits, if_neg hpos]
      have hread := readBytesVec_append (data.take (min data.length chunkSize))
        (writeChunks (data.drop (min data.length chunkSize)) ++ writeUb4 0 ++ rest)
      rw [hchunk] at hread
      rw [Fallible.bind_of_ok hread, Fallible.bind_of_ok (ih _ hshorter)]
      exact congrArg (fun bytes => (Except.ok bytes, rest)) (List.take_append_drop _ _)

/-- The chunks take more bytes than the value has. -/
lemma length_lt_writeChunks (data rest : List UInt8) :
    data.length < (writeChunks data ++ writeUb4 0 ++ rest).length + 1 := by
  have hlt := readChunks_takes
    (readChunks_writeChunks data rest (Nat.lt_succ_self data.length))
  omega

/-! ### Values -/

/-- A value is read back where it has been written. -/
lemma readBytesWithLength_write (v : Option (List UInt8)) (rest : List UInt8) :
    readBytesWithLength (writeBytesWithLength v ++ rest) = (.ok v, rest) := by
  cases v with
  | none => exact Fallible.bind_of_ok (readU8_cons 255 rest)
  | some data =>
    rw [writeBytesWithLength]
    split_ifs with hzero hshort
    · obtain rfl := List.eq_nil_of_length_eq_zero hzero
      have hempty : ([] : List UInt8).length ≤ 252 := Nat.zero_le _
      exact readBytesWithLength_short hempty
    · exact readBytesWithLength_short hshort
    · rw [List.cons_append, readBytesWithLength, Fallible.bind_of_ok (readU8_cons _ _)]
      exact Fallible.bind_of_ok (readChunks_writeChunks data rest (length_lt_writeChunks data rest))

/-- **A value is read back where it has been written**: nothing behind it is taken, and different
values are written differently. -/
theorem clr_round_trip :
    (∀ (v : Option (List UInt8)) (t : List UInt8),
      readBytesWithLength (writeBytesWithLength v ++ t) = (.ok v, t)) ∧
    Function.Injective writeBytesWithLength := by
  refine ⟨readBytesWithLength_write, fun v w h => ?_⟩
  have hv := readBytesWithLength_write v []
  rw [h, readBytesWithLength_write w []] at hv
  exact (Except.ok.inj (Prod.mk.inj hv).1).symm

end DbSaci.Wire
