import DbSaci.Library.BigEndian
import DbSaci.Library.Fallible

set_option relaxedAutoImplicit false
set_option autoImplicit false

/-!
# Reading the bytes of a message

## Main definitions

* `Read` — a reader: it takes bytes from those that remain, or fails.
* `readUb4`, `readBytesWithLength` — numbers and values, with their length in front.
* `Parse`, `withCapacity` — a parser: a reader that also asks for memory.
-/

namespace DbSaci.Wire

/-- What a reader fails with. -/
inductive ReadError
  | bufferUnderflow (needed available : ℕ)
  | invalidLengthIndicator (n : UInt8)
  | protocol (text : String)
  | dataConversion (text : String)
  deriving DecidableEq, Repr

/-- The bytes are too few. -/
def ReadError.isUnderflow : ReadError → Bool
  | bufferUnderflow _ _ => true
  | _ => false

/-- A reader: what it reads, and the bytes that remain. -/
abbrev Read (α : Type) : Type := Fallible (List UInt8) ReadError α

open Fallible (ret fail ofExcept recover times)

/-! ### Bytes and numbers -/

/-- `read_bytes_vec`: so many bytes. -/
def readBytesVec (n : ℕ) : Read (List UInt8) := fun s =>
  if s.length < n then (.error (.bufferUnderflow n s.length), s) else (.ok (s.take n), s.drop n)

/-- `skip`. -/
def skip (n : ℕ) : Read Unit := do
  let _ ← readBytesVec n
  ret ()

/-- `read_u8`. -/
def readU8 : Read UInt8 := do
  let bytes ← readBytesVec 1
  ret (bytes.headD 0)

/-- `read_u16_be`. -/
def readU16Be : Read ℕ := do
  let bytes ← readBytesVec 2
  ret (ofBeBytes bytes)

/-- `read_ub_length`: the length of a number. -/
def readUbLength : Read UInt8 := do
  let b ← readU8
  ret (b &&& 0x7f)

/-- A number of at most so many bytes, with their number in front. -/
def readUb (most : ℕ) : Read ℕ := do
  let n ← readUbLength
  if n.toNat ≤ most then do
    let bytes ← readBytesVec n.toNat
    ret (ofBeBytes bytes)
  else fail (.invalidLengthIndicator n)

/-- `read_ub2`. -/
def readUb2 : Read ℕ := readUb 2

/-- `read_ub4`. -/
def readUb4 : Read ℕ := readUb 4

/-- `read_ub8`: for a length from 5 to 7 the length is read again. -/
def readUb8 : Read ℕ := do
  let n ← readUbLength
  if n.toNat ≤ 4 ∨ n = 8 then do
    let bytes ← readBytesVec n.toNat
    ret (ofBeBytes bytes)
  else if n.toNat ≤ 7 then do
    let len ← readUbLength
    let bytes ← readBytesVec len.toNat
    ret (ofBeBytes bytes % 2 ^ 64)
  else fail (.invalidLengthIndicator n)

/-! ### Values -/

/-- The chunks of a long value, up to an empty one, at most so many. -/
def readChunks : ℕ → Read (List UInt8)
  | 0 => fail (.bufferUnderflow 1 0)
  | fuel + 1 => do
    let n ← readUb4
    if n = 0 then ret []
    else do
      let chunk ← readBytesVec n
      let chunks ← readChunks fuel
      ret (chunk ++ chunks)

/-- The chunks of a long value, up to an empty one. There are not more than there are bytes. -/
def readLong : Read (List UInt8) := fun s => readChunks (s.length + 1) s

/-- `read_bytes_with_length`: a value with its length in front, or no value. -/
def readBytesWithLength : Read (Option (List UInt8)) := do
  let len ← readU8
  if len = 255 then ret none
  else if len = 254 then do
    let value ← readLong
    ret (some value)
  else do
    let n ← if len = 253 then readU8 else ret len
    let value ← readBytesVec n.toNat
    ret (some value)

section Remaining

variable {α : Type} {s t : List UInt8}

lemma readBytesVec_ok {n : ℕ} {bytes : List UInt8} (h : readBytesVec n s = (.ok bytes, t)) :
    n ≤ s.length ∧ bytes = s.take n ∧ t = s.drop n := by
  rw [readBytesVec] at h
  split_ifs at h with hlt
  · cases h
  · obtain ⟨hbytes, ht⟩ := Prod.mk.inj h
    exact ⟨Nat.le_of_not_lt hlt, (Except.ok.inj hbytes).symm, ht.symm⟩

lemma readBytesVec_append (v rest : List UInt8) :
    readBytesVec v.length (v ++ rest) = (.ok v, rest) := by
  rw [readBytesVec, if_neg (by simp), List.take_left, List.drop_left]

lemma readU8_nil : readU8 [] = (.error (.bufferUnderflow 1 0), []) := rfl

lemma readU8_cons (b : UInt8) (s : List UInt8) : readU8 (b :: s) = (.ok b, s) := by
  have hlen : ¬ (b :: s).length < 1 := by simp
  have hread : readBytesVec 1 (b :: s) = (.ok [b], s) := by
    rw [readBytesVec, if_neg hlen]
    rfl
  rw [readU8, Fallible.bind_of_ok hread]
  rfl

/-- The highest bit of a length does not count. -/
lemma readUbLength_cons (b : UInt8) (s : List UInt8) :
    readUbLength (b :: s) = (.ok (b &&& 0x7f), s) := by
  rw [readUbLength, Fallible.bind_of_ok (readU8_cons b s)]
  rfl

lemma toNat_and_low (b : UInt8) : (b &&& 0x7f).toNat = b.toNat % 128 := by
  rw [UInt8.toNat_and]
  exact Nat.and_two_pow_sub_one_eq_mod b.toNat 7

lemma readUb_length {most n : ℕ} (h : readUb most s = (.ok n, t)) : t.length < s.length := by
  obtain ⟨len, u, hlen, h⟩ := Fallible.of_bind_ok h
  have hu : u.length < s.length := by
    obtain ⟨b, v, hb, hv⟩ := Fallible.of_bind_ok hlen
    obtain rfl := (Prod.mk.inj hv).2
    cases s with
    | nil =>
      rw [readU8_nil] at hb
      cases hb
    | cons c s =>
      rw [readU8_cons] at hb
      obtain rfl := (Prod.mk.inj hb).2
      exact Nat.lt_succ_self _
  split_ifs at h with hle
  · obtain ⟨bytes, v, hbytes, hv⟩ := Fallible.of_bind_ok h
    obtain rfl := (Prod.mk.inj hv).2
    obtain ⟨-, -, rfl⟩ := readBytesVec_ok hbytes
    rw [List.length_drop]
    omega
  · cases h

/-- More chunks than there are bytes are not read. -/
lemma readChunks_of_lt {n m : ℕ} (hn : s.length < n) (hm : s.length < m) :
    readChunks n s = readChunks m s := by
  induction n generalizing m s with
  | zero => exact absurd hn (Nat.not_lt_zero _)
  | succ n ih =>
    obtain ⟨m, rfl⟩ := Nat.exists_eq_add_of_le' (Nat.one_le_of_lt hm)
    rw [readChunks, readChunks]
    rcases hread : readUb4 s with ⟨e | len, t⟩
    · rw [Fallible.bind_of_error hread, Fallible.bind_of_error hread]
    · rw [Fallible.bind_of_ok hread, Fallible.bind_of_ok hread]
      have hlt := readUb_length hread
      split_ifs with hzero
      · rfl
      · rcases hchunk : readBytesVec len t with ⟨e | chunk, u⟩
        · rw [Fallible.bind_of_error hchunk, Fallible.bind_of_error hchunk]
        · obtain ⟨-, -, rfl⟩ := readBytesVec_ok hchunk
          have hle : (t.drop len).length ≤ t.length := List.length_drop ▸ Nat.sub_le _ _
          have hsame := @ih (t.drop len) m (by omega) (by omega)
          rw [Fallible.bind_of_ok hchunk, Fallible.bind_of_ok hchunk]
          change Fallible.andThen _ _ _ = Fallible.andThen _ _ _
          rw [Fallible.andThen, Fallible.andThen, hsame]

end Remaining

/-! ### Parsers -/

/-- The bytes that remain, and the capacities that have been asked for. -/
structure ReadBuffer where
  rest : List UInt8
  capacities : List ℕ
  deriving DecidableEq, Repr

/-- The bytes of a message. -/
def ReadBuffer.fromSlice (payload : List UInt8) : ReadBuffer := ⟨payload, []⟩

/-- A parser: what it finds, and the buffer it leaves. -/
abbrev Parse (α : Type) : Type := Fallible ReadBuffer ReadError α

/-- A reader asks for no memory. -/
def reading {α : Type} (p : Read α) : Parse α := p.zoom ReadBuffer.rest fun s b => { b with rest := s }

/-- `Vec::with_capacity`. -/
def withCapacity (n : ℕ) : Parse Unit := fun b =>
  (.ok (), { b with capacities := b.capacities ++ [n] })

end DbSaci.Wire
