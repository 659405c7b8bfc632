import DbSaci.Server.RaceBreak
import DbSaci.Wire.ReadBuffer

set_option relaxedAutoImplicit false
set_option autoImplicit false

/-!
# Fetch requests that are cut short

Some clients declare a Fetch request too short. The server then reads on until the two numbers of
the request are complete, and parses them afterwards. A number of up to eight bytes is completed,
although it is parsed only if it has at most four; and of the number of the cursor 16 bits are
left.

## Main definitions

* `Ub4`, `FetchMessage`, `FetchFrame` — a request, with a packet that declares it too short or not.
* `parseFetchRequest` — what is parsed.
* `FetchFrame.Served` — the request is read up to its end, and the numbers sent are parsed.

## Main results

* `completeUb_run` — what completing a number reads.
* `FetchFrame.run_stream` — what is read of a request.
* `fetch_iff` — which requests are served, and which lengths are parsed if they are completed.
-/

namespace DbSaci.Server

open Wire (Read ReadError readU8 readU16Be readUb readUb4)
open Fallible (ret)

/-! ### Requests -/

/-- A number of at most four bytes behind its length. The highest bit of the length does not
count. -/
structure Ub4 where
  lengthByte : UInt8
  value : List UInt8
  length_eq : lengthByte.toNat % 128 = value.length
  length_le : value.length ≤ 4

/-- The bytes of a number. -/
def Ub4.bytes (u : Ub4) : List UInt8 := u.lengthByte :: u.value

/-- The number itself. -/
def Ub4.number (u : Ub4) : ℕ := ofBeBytes u.value

/-- A Fetch request. -/
structure FetchMessage where
  flag : UInt8
  flag' : UInt8
  seq : UInt8
  cursor : Ub4
  rows : Ub4

namespace FetchMessage

variable (m : FetchMessage)

/-- The bytes in front of the two numbers. -/
def preamble : List UInt8 := [m.flag, m.flag', 0x03, 0x05, m.seq]

/-- The bytes of a request. -/
def bytes : List UInt8 := m.preamble ++ (m.cursor.bytes ++ m.rows.bytes)

end FetchMessage

/-- `parse_fetch_request`: the number of a cursor, of which 16 bits are left, and that of rows. -/
def parseFetchRequest (payload : List UInt8) : Except ReadError (UInt16 × ℕ) :=
  let parse : Read (UInt16 × ℕ) := do
    let _ ← readU16Be -- data flags
    let _ ← readU8 -- message type
    let _ ← readU8 -- function code
    let _ ← readU8 -- sequence number
    let cursorId ← readUb4
    let numRows ← readUb4
    ret (UInt16.ofNat cursorId, numRows)
  (parse payload).1

/-- A request in a packet, and what is sent behind it. The declared length may end anywhere behind
the bytes in front of the two numbers. -/
structure FetchFrame (mode : SduMode) where
  message : FetchMessage
  behind : List UInt8
  header : List UInt8
  declared : ℕ
  header_length : header.length = 8
  type_eq : header[4]? = some 6
  length_eq : packetLength header mode = 8 + declared
  length_le : 8 + declared ≤ maxPacketSize
  preamble_le : 5 ≤ declared
  declared_le : declared ≤ (message.bytes ++ behind).length

namespace FetchFrame

variable {mode : SduMode} (f : FetchFrame mode)

/-- What the client sends. -/
def stream : List UInt8 := f.header ++ (f.message.bytes ++ f.behind)

/-- Where the request ends: where its length says, or where its numbers do. -/
def finish : ℕ := max f.declared f.message.bytes.length

/-- **A request is served**: the packet ends behind its second number, or where its length says if
that is behind it, and the numbers that are parsed are those that were sent. -/
def Served : Prop :=
  ∃ (p : Packet) (cursorId : UInt16),
    (readPacket mode false).run f.stream =
      .ok p ((f.message.bytes ++ f.behind).drop f.finish) ∧
    p.payload = (f.message.bytes ++ f.behind).take f.finish ∧
    parseFetchRequest p.payload = .ok (cursorId, f.message.rows.number) ∧
    cursorId.toNat = f.message.cursor.number

end FetchFrame

/-- The length in front of a number can be completed. -/
def Completes (b : UInt8) : Prop :=
  ∃ (buf : List UInt8) (off : ℕ) (s : List UInt8) (r : List UInt8 × ℕ) (rest : List UInt8),
    buf[off]? = some b ∧ (completeUb buf off).run s = .ok r rest

/-- The length in front of a number can be parsed. -/
def Parses (b : UInt8) : Prop :=
  ∃ (s : List UInt8) (n : ℕ) (rest : List UInt8), readUb4 (b :: s) = (.ok n, rest)

/-! ### Completing a number -/

section Complete

variable {s : List UInt8}

lemma readMore_run {buf : List UInt8} {n : ℕ} (hn : n ≤ s.length)
    (hmax : buf.length + n ≤ maxPacketSize) :
    (readMore buf n).run s = .ok (buf ++ s.take n) (s.drop n) := by
  rw [readMore, if_neg (Nat.not_lt.2 hmax), Reader.run_exact, if_neg (Nat.not_lt.2 hn)]
  rfl

variable (u : Ub4) (pre t : List UInt8)

/-- Bytes that are read if they are not there yet. -/
lemma readUpTo_run {w : List UInt8} {k n : ℕ} (hk : k ≤ w.length) (hn : n ≤ w.length)
    (hmax : pre.length + n ≤ maxPacketSize) {c : Prop} [Decidable c] (hc : c ↔ k < n) :
    ((if c then readMore (pre ++ w.take k) (pre.length + n - (pre ++ w.take k).length)
      else .done (pre ++ w.take k) : Reader UInt8 (List UInt8))).run (w.drop k) =
      .ok (pre ++ w.take (max k n)) (w.drop (max k n)) := by
  have hlen : (pre ++ w.take k).length = pre.length + k := by
    rw [List.length_append, List.length_take_of_le hk]
  by_cases hlt : k < n
  · rw [if_pos (hc.2 hlt), hlen, show pre.length + n - (pre.length + k) = n - k by omega,
      readMore_run (by rw [List.length_drop]; omega) (by omega), List.append_assoc,
      ← List.take_add, List.drop_drop, Nat.add_sub_cancel' hlt.le, Nat.max_eq_right hlt.le]
  · rw [if_neg (fun h => hlt (hc.1 h)), Nat.max_eq_left (Nat.not_lt.1 hlt)]
    rfl

/-- **What completing a number reads**: the rest of its bytes, if they are not all there. -/
theorem completeUb_run {k : ℕ} (hk : k ≤ (u.bytes ++ t).length)
    (hmax : pre.length + u.bytes.length ≤ maxPacketSize) :
    (completeUb (pre ++ (u.bytes ++ t).take k) pre.length).run ((u.bytes ++ t).drop k) =
      .ok (pre ++ (u.bytes ++ t).take (max k u.bytes.length), pre.length + u.bytes.length)
        ((u.bytes ++ t).drop (max k u.bytes.length)) := by
  have hle : u.bytes.length ≤ (u.bytes ++ t).length := by
    rw [List.length_append]
    omega
  have hpos : u.bytes.length = u.value.length + 1 := rfl
  have hlen : (pre ++ (u.bytes ++ t).take k).length = pre.length + k := by
    rw [List.length_append, List.length_take_of_le hk]
  have hfirst := readUpTo_run pre hk (n := 1) (by omega) (by omega)
    (c := (pre ++ (u.bytes ++ t).take k).length ≤ pre.length) (by rw [hlen]; omega)
  have hbyte : (pre ++ (u.bytes ++ t).take (max k 1))[pre.length]? = some u.lengthByte := by
    obtain ⟨j, hj⟩ : ∃ j, max k 1 = j + 1 := ⟨max k 1 - 1, by omega⟩
    rw [List.getElem?_append_right (Nat.le_refl _), Nat.sub_self, hj]
    rfl
  have hsecond := readUpTo_run pre (w := u.bytes ++ t) (k := max k 1) (n := u.value.length + 1)
    (by omega) hle (by omega)
    (c := (pre ++ (u.bytes ++ t).take (max k 1)).length < pre.length + (u.value.length + 1))
    (by rw [List.length_append, List.length_take_of_le (by omega)]; omega)
  have hmaxes : max (max k 1) (u.value.length + 1) = max k u.bytes.length := by omega
  rw [hmaxes] at hsecond
  rw [completeUb, Reader.run_bind hfirst, hbyte]
  dsimp only
  rw [u.length_eq, if_neg (by have := u.length_le; omega), Nat.add_assoc, Nat.add_comm 1,
    Reader.run_bind hsecond, hpos]
  rfl

end Complete

/-! ### Parsing -/

section Parse

variable (rest : List UInt8)

/-- A number is parsed from its bytes. -/
lemma readUb4_bytes (u : Ub4) : readUb4 (u.bytes ++ rest) = (.ok u.number, rest) := by
  rw [Ub4.bytes, List.cons_append, readUb4, readUb,
    Fallible.bind_of_ok (Wire.readUbLength_cons _ _), Wire.toNat_and_low, u.length_eq,
    if_pos u.length_le, Fallible.bind_of_ok (Wire.readBytesVec_append u.value rest)]
  rfl

/-- The numbers of a request are parsed, with any bytes behind them. -/
lemma parseFetchRequest_bytes (m : FetchMessage) : parseFetchRequest (m.bytes ++ rest) =
    .ok (UInt16.ofNat m.cursor.number, m.rows.number) := by
  have hflags : readU16Be (m.bytes ++ rest) = (.ok (ofBeBytes [m.flag, m.flag']),
      [0x03, 0x05, m.seq] ++ (m.cursor.bytes ++ (m.rows.bytes ++ rest))) := by
    have hread := Wire.readBytesVec_append [m.flag, m.flag']
      ([0x03, 0x05, m.seq] ++ (m.cursor.bytes ++ (m.rows.bytes ++ rest)))
    have hbytes : m.bytes ++ rest = [m.flag, m.flag'] ++
        ([0x03, 0x05, m.seq] ++ (m.cursor.bytes ++ (m.rows.bytes ++ rest))) := by
      simp [FetchMessage.bytes, FetchMessage.preamble]
    rw [hbytes, readU16Be]
    exact Fallible.bind_of_ok hread
  rw [parseFetchRequest, Fallible.bind_of_ok hflags, List.cons_append,
    Fallible.bind_of_ok (Wire.readU8_cons _ _), List.cons_append, Fallible.bind_of_ok (Wire.readU8_cons _ _), List.cons_append,
    Fallible.bind_of_ok (Wire.readU8_cons _ _), List.nil_append,
    Fallible.bind_of_ok (readUb4_bytes _ _), Fallible.bind_of_ok (readUb4_bytes _ _)]
  rfl

end Parse

/-! ### Requests -/

namespace FetchFrame

variable {mode : SduMode} (f : FetchFrame mode)

/-- **What is read of a request**: the bytes up to where it ends. -/
theorem run_stream : ∃ flags, (readPacket mode false).run f.stream =
    .ok ⟨.data, flags, (f.message.bytes ++ f.behind).take f.finish⟩
      ((f.message.bytes ++ f.behind).drop f.finish) := by
  have htype : f.header[4]?.bind PacketType.ofU8 = some .data := by
    rw [f.type_eq]
    rfl
  have hdeclared := f.declared_le
  have hfive := f.preamble_le
  have hmax := f.length_le
  obtain ⟨k, hk⟩ : ∃ k, f.declared = k + 5 := ⟨f.declared - 5, by omega⟩
  -- what stands behind the bytes in front of the two numbers
  obtain ⟨w, hw⟩ : ∃ w, w = f.message.cursor.bytes ++ (f.message.rows.bytes ++ f.behind) :=
    ⟨_, rfl⟩
  have hall : f.message.bytes ++ f.behind = f.message.preamble ++ w := by
    rw [FetchMessage.bytes, hw, List.append_assoc, List.append_assoc]
  have htake : ∀ n, (f.message.bytes ++ f.behind).take (n + 5) =
      f.message.preamble ++ w.take n := by
    intro n
    rw [hall]
    rfl
  have hdrop : ∀ n, (f.message.bytes ++ f.behind).drop (n + 5) = w.drop n := by
    intro n
    rw [hall]
    rfl
  have hsizes : f.message.cursor.bytes.length ≤ 5 ∧ f.message.rows.bytes.length ≤ 5 :=
    ⟨Nat.succ_le_succ f.message.cursor.length_le, Nat.succ_le_succ f.message.rows.length_le⟩
  have hlength : f.message.bytes.length =
      f.message.cursor.bytes.length + f.message.rows.bytes.length + 5 := by
    rw [FetchMessage.bytes, List.length_append, List.length_append]
    exact Nat.add_comm 5 _
  have hfinish : f.finish =
      max k (f.message.cursor.bytes.length + f.message.rows.bytes.length) + 5 := by
    rw [finish, hk, hlength, Nat.add_max_add_right]
  have hkw : k ≤ w.length := by
    rw [hall, List.length_append] at hdeclared
    have hpreamble : f.message.preamble.length = 5 := rfl
    omega
  -- the first number, and then the second one
  have hfirst := completeUb_run f.message.cursor f.message.preamble
    (f.message.rows.bytes ++ f.behind) (k := k) (hw ▸ hkw) (by
      have hpreamble : f.message.preamble.length = 5 := rfl
      rw [hpreamble, maxPacketSize]
      omega)
  rw [← hw] at hfirst
  obtain ⟨j, hj⟩ : ∃ j, max k f.message.cursor.bytes.length =
      f.message.cursor.bytes.length + j := ⟨_, (Nat.add_sub_cancel' (Nat.le_max_right _ _)).symm⟩
  have hsplit : ∀ n, w.take (f.message.cursor.bytes.length + n) =
      f.message.cursor.bytes ++ (f.message.rows.bytes ++ f.behind).take n := by
    intro n
    rw [hw, List.take_append, List.take_of_length_le (Nat.le_add_right _ _),
      Nat.add_sub_cancel_left]
  have hsplit' : ∀ n, w.drop (f.message.cursor.bytes.length + n) =
      (f.message.rows.bytes ++ f.behind).drop n := by
    intro n
    rw [hw, List.drop_append, List.drop_of_length_le (Nat.le_add_right _ _),
      Nat.add_sub_cancel_left, List.nil_append]
  rw [hj, hsplit, hsplit', ← List.append_assoc] at hfirst
  have hsecond := completeUb_run f.message.rows (f.message.preamble ++ f.message.cursor.bytes)
    f.behind (k := j) (by
      have hlen := congrArg List.length hw
      rw [List.length_append] at hlen
      omega) (by
      have hpreamble : (f.message.preamble ++ f.message.cursor.bytes).length =
        5 + f.message.cursor.bytes.length := List.length_append
      rw [hpreamble, maxPacketSize]
      omega)
  refine ⟨f.header[5]?.getD 0, ?_⟩
  rw [stream, readPacket, Reader.run_exact_append f.header_length.ge,
    List.take_of_length_le f.header_length.le, List.drop_of_length_le f.header_length.le,
    List.nil_append]
  dsimp only
  rw [f.length_eq, if_neg (not_not.2 ⟨by omega, by omega⟩), htype]
  dsimp only
  rw [Nat.add_sub_cancel_left, Reader.run_exact, if_neg (Nat.not_lt.2 hdeclared), hk, htake, hdrop,
    if_pos ⟨rfl, by rw [List.length_append]; exact Nat.le_add_right 5 _, rfl, rfl, rfl⟩]
  refine (Reader.run_bind hfirst).trans ?_
  dsimp only
  have hoffset : f.message.preamble.length + f.message.cursor.bytes.length =
      (f.message.preamble ++ f.message.cursor.bytes).length := List.length_append.symm
  have hmaxes : max k (f.message.cursor.bytes.length + f.message.rows.bytes.length) =
      f.message.cursor.bytes.length + max j f.message.rows.bytes.length := by
    omega
  rw [hoffset, Reader.run_bind hsecond, hfinish, htake, hdrop, hmaxes, hsplit, hsplit',
    List.append_assoc]
  rfl

/-- **Which requests are served**: those whose cursor has a number of 16 bits. -/
theorem served_iff : f.Served ↔ f.message.cursor.number < 65536 := by
  obtain ⟨flags, hrun⟩ := f.run_stream
  have hlong : f.message.bytes.length ≤ f.finish := Nat.le_max_right _ _
  have hpayload : (f.message.bytes ++ f.behind).take f.finish =
      f.message.bytes ++ f.behind.take (f.finish - f.message.bytes.length) := by
    rw [List.take_append, List.take_of_length_le hlong]
  have hparse := parseFetchRequest_bytes (f.behind.take (f.finish - f.message.bytes.length))
    f.message
  rw [← hpayload] at hparse
  constructor
  · rintro ⟨p, cursorId, hp, hpayload', hparse', hcursor⟩
    rw [hpayload', hparse] at hparse'
    have hsame := congrArg Prod.fst (Except.ok.inj hparse')
    have hlt := cursorId.toNat_lt
    omega
  · intro hlt
    exact ⟨_, _, hrun, rfl, hparse, UInt16.toNat_ofNat_of_lt' hlt⟩

end FetchFrame

/-- **Which lengths are parsed if they are completed**: all but those from 5 to 8. -/
theorem completes_parses_iff (b : UInt8) :
    (Completes b → Parses b) ↔ ¬ (5 ≤ b.toNat % 128 ∧ b.toNat % 128 ≤ 8) := by
  have hparses : Parses b ↔ b.toNat % 128 ≤ 4 := by
    constructor
    · rintro ⟨s, n, rest, h⟩
      rw [readUb4, readUb, Fallible.bind_of_ok (Wire.readUbLength_cons b s),
        Wire.toNat_and_low] at h
      by_contra hlong
      rw [if_neg hlong] at h
      cases h
    · intro hle
      refine ⟨List.replicate (b.toNat % 128) 0,
        ofBeBytes (List.replicate (b.toNat % 128) 0), [], ?_⟩
      have hread := Wire.readBytesVec_append (List.replicate (b.toNat % 128) 0) []
      rw [List.length_replicate, List.append_nil] at hread
      rw [readUb4, readUb, Fallible.bind_of_ok (Wire.readUbLength_cons b _), Wire.toNat_and_low,
        if_pos hle, Fallible.bind_of_ok hread]
      rfl
  have hcompletes : Completes b ↔ b.toNat % 128 ≤ 8 := by
    constructor
    · rintro ⟨buf, off, s, r, rest, hbyte, h⟩
      have hoff : off < buf.length := (List.getElem?_eq_some_iff.1 hbyte).1
      rw [completeUb, if_neg (Nat.not_le.2 hoff), Reader.bind, hbyte] at h
      by_contra hlong
      dsimp only at h
      rw [if_pos (Nat.not_le.1 hlong)] at h
      cases h
    · intro hle
      refine ⟨b :: List.replicate (b.toNat % 128) 0, 0, [],
        (b :: List.replicate (b.toNat % 128) 0, 0 + 1 + b.toNat % 128), [], rfl, ?_⟩
      rw [completeUb, if_neg (by simp)]
      change Reader.run (if 8 < b.toNat % 128 then _ else _) [] = _
      rw [if_neg (Nat.not_lt.2 hle), if_neg (by simp; omega)]
      rfl
  rw [hparses, hcompletes]
  omega

/-- **Which requests are served, and which lengths are parsed if they are completed.** -/
theorem fetch_iff {mode : SduMode} (f : FetchFrame mode) (b : UInt8) :
    (f.Served ↔ f.message.cursor.number < 65536) ∧
      ((Completes b → Parses b) ↔ ¬ (5 ≤ b.toNat % 128 ∧ b.toNat % 128 ≤ 8)) :=
  ⟨f.served_iff, completes_parses_iff b⟩

/-- A number of five bytes is completed, and not parsed. -/
theorem five_bytes_not_parsed :
    ¬ ((∀ (mode : SduMode) (f : FetchFrame mode), f.Served) ∧
      ∀ b : UInt8, Completes b → Parses b) := by
  rintro ⟨-, hparses⟩
  exact (completes_parses_iff 5).1 (hparses 5) (by decide)

end DbSaci.Server
