import DbSaci.Library.BigEndian
import DbSaci.Server.RaceBreak

set_option relaxedAutoImplicit false
set_option autoImplicit false

/-!
# Packets that are written

A packet is written with its length in four bytes once the large form has been negotiated. The
reader takes such a length for one of the old form, in two bytes, if the last two of its bytes are
zero and the first two are at least 8.

## Main definitions

* `emitOnePacket` — a packet is written.
* `writePacketFlags` — the same, where a message for an OCI client is split.
* `ReadBack` — the packet that is read is the one that was written.

## Main results

* `readBack_iff` — which packets are read back.
* `writePacketFlags_reads` — a message for an OCI client is read packet by packet, and nothing of
  it is lost.
-/

namespace DbSaci.Server

/-- The number of a type. -/
def PacketType.toU8 : PacketType → UInt8
  | connect => 1
  | accept => 2
  | ack => 3
  | refuse => 4
  | redirect => 5
  | data => 6
  | null => 7
  | abort => 9
  | resend => 11
  | marker => 12
  | attention => 13
  | control => 14

@[simp]
lemma PacketType.ofU8_toU8 (t : PacketType) : ofU8 t.toU8 = some t := by
  cases t <;> rfl

/-! ### One packet -/

/-- What stands behind the length of a packet. -/
def packetBody (packetType : PacketType) (flags : UInt8) (payload : List UInt8) : List UInt8 :=
  [packetType.toU8, flags, 0, 0] ++ payload

/-- `emit_one_packet`: the bytes it writes, or the text of a protocol error. -/
def emitOnePacket (mode : SduMode) (packetType : PacketType) (flags : UInt8)
    (payload : List UInt8) : Except String (List UInt8) :=
  let packetLen := 8 + payload.length
  if maxPacketSize < packetLen then
    .error ("TNS packet exceeds maximum size: " ++ toString packetLen)
  else
    match mode with
    | .small =>
      if 65535 < packetLen then
        .error ("small-SDU TNS packet too large: " ++ toString packetLen)
      else .ok (toBeBytes 2 packetLen ++ ([0, 0] ++ packetBody packetType flags payload))
    | .large => .ok (toBeBytes 4 packetLen ++ packetBody packetType flags payload)

/-- The packet that is read is the one that was written: its header gives its length, and whatever
comes behind it is left. -/
def ReadBack (packetType : PacketType) (flags : UInt8) (payload : List UInt8) : Prop :=
  ∃ bytes, emitOnePacket .large packetType flags payload = .ok bytes ∧
    packetLength (bytes.take 8) .large = 8 + payload.length ∧
    ∀ rest, (readPacket .large true).run (bytes ++ rest) = .ok ⟨packetType, flags, payload⟩ rest

section Header

variable (n : ℕ) (t : List UInt8)

lemma ofNat_eq_zero_iff : UInt8.ofNat n = 0 ↔ n % 256 = 0 := by
  rw [← UInt8.toNat_inj, UInt8.toNat_ofNat', UInt8.toNat_zero]

variable {n}

/-- The first two bytes of a length in four bytes are the part above `65536`. -/
lemma beNat_take_two (h : n < 256 ^ 4) : beNat ((toBeBytes 4 n ++ t).take 2) = n / 65536 := by
  have hlt : n / 65536 < 256 ^ 2 := by omega
  have htake : (toBeBytes 4 n ++ t).take 2 = toBeBytes 2 (n / 65536) := by
    rw [toBeBytes_four, toBeBytes, toBeBytes, toBeBytes, Nat.pow_zero, Nat.div_one, Nat.pow_one,
      Nat.div_div_eq_div_mul]
    rfl
  rw [htake]
  exact ofBeBytes_of_lt hlt

lemma beNat_take_four (h : n < 256 ^ 4) : beNat ((toBeBytes 4 n ++ t).take 4) = n := by
  rw [List.take_append_of_le_length (by rw [length_toBeBytes]), List.take_of_length_le
    (by rw [length_toBeBytes])]
  exact ofBeBytes_of_lt h

/-- A length in four bytes is read as one in two bytes if it is a multiple of `65536` that is not
too small. -/
lemma packetLength_toBeBytes (h : n < 256 ^ 4) : packetLength (toBeBytes 4 n ++ t) .large =
    if n % 65536 = 0 ∧ 8 * 65536 ≤ n then n / 65536 else n := by
  have htwo : (toBeBytes 4 n ++ t)[2]? = some (UInt8.ofNat (n / 256)) := by
    rw [toBeBytes_four]
    rfl
  have hthree : (toBeBytes 4 n ++ t)[3]? = some (UInt8.ofNat n) := by
    rw [toBeBytes_four]
    rfl
  have hlow : (n / 256 % 256 = 0 ∧ n % 256 = 0 ∧ 8 ≤ n / 65536) ↔
      n % 65536 = 0 ∧ 8 * 65536 ≤ n := by omega
  simp only [packetLength, beNat_take_two t h, beNat_take_four t h, htwo, hthree, Option.some_inj,
    ofNat_eq_zero_iff, hlow]

end Header

/-! ### One packet is read back -/

section One

variable (packetType : PacketType) (flags : UInt8) (payload : List UInt8)

/-- The first eight bytes of a packet. -/
def packetHeader (n : ℕ) : List UInt8 := toBeBytes 4 n ++ [packetType.toU8, flags, 0, 0]

lemma length_packetHeader (n : ℕ) : (packetHeader packetType flags n).length = 8 := by
  rw [packetHeader, List.length_append, length_toBeBytes]
  rfl

lemma packetHeader_append (n : ℕ) : toBeBytes 4 n ++ packetBody packetType flags payload =
    packetHeader packetType flags n ++ payload := by
  rw [packetHeader, packetBody, List.append_assoc]

variable {packetType flags payload}

lemma emitOnePacket_large (h : 8 + payload.length ≤ maxPacketSize) :
    emitOnePacket .large packetType flags payload =
      .ok (packetHeader packetType flags (8 + payload.length) ++ payload) := by
  rw [← packetHeader_append]
  exact if_neg (Nat.not_lt.2 h)

/-- A packet whose length is read as it was written is read, up to its end. -/
lemma readPacket_run {n : ℕ} (hn : n = 8 + payload.length) (hmax : n ≤ maxPacketSize)
    (hlen : packetLength (packetHeader packetType flags n) .large = n) (rest : List UInt8) :
    (readPacket .large true).run (packetHeader packetType flags n ++ (payload ++ rest)) =
      .ok ⟨packetType, flags, payload⟩ rest := by
  have hheader := length_packetHeader packetType flags n
  have htype : (packetHeader packetType flags n)[4]? = some packetType.toU8 := by
    rw [packetHeader, toBeBytes_four]
    rfl
  have hflags : (packetHeader packetType flags n)[5]? = some flags := by
    rw [packetHeader, toBeBytes_four]
    rfl
  have hpayload : n - 8 = payload.length := by omega
  rw [readPacket, Reader.run, if_neg (by rw [List.length_append, hheader]; omega),
    List.take_left' hheader, List.drop_left' hheader]
  simp only [hlen, htype, hflags, Option.bind_some, PacketType.ofU8_toU8, hpayload]
  rw [if_neg (by omega), Reader.run, if_neg (by rw [List.length_append]; omega), List.take_left,
    List.drop_left, if_neg (by simp)]
  rfl

lemma packetLength_packetHeader {n : ℕ} (h : n ≤ maxPacketSize) :
    packetLength (packetHeader packetType flags n) .large =
      if n % 65536 = 0 ∧ 8 * 65536 ≤ n then n / 65536 else n :=
  packetLength_toBeBytes _ (lt_of_le_of_lt h (by decide))

/-- A long packet whose length is a multiple of `65536` is taken for a short one. -/
lemma not_readBack (h : 8 + payload.length ≤ maxPacketSize) (hdvd : 65536 ∣ 8 + payload.length)
    (hle : 8 * 65536 ≤ 8 + payload.length) : ¬ ReadBack packetType flags payload := by
  rintro ⟨bytes, hemit, hread, -⟩
  rw [emitOnePacket_large h] at hemit
  obtain rfl := Except.ok.inj hemit
  rw [List.take_left' (length_packetHeader packetType flags _), packetLength_packetHeader h,
    if_pos ⟨Nat.mod_eq_zero_of_dvd hdvd, hle⟩] at hread
  omega

/-- **A packet is read back exactly if its length is no multiple of `65536` from `8 * 65536`
on.** -/
theorem readBack_iff (packetType : PacketType) (flags : UInt8) (payload : List UInt8)
    (h : 8 + payload.length ≤ maxPacketSize) : ReadBack packetType flags payload ↔
      ¬ (65536 ∣ 8 + payload.length ∧ 8 * 65536 ≤ 8 + payload.length) := by
  constructor
  · rintro hback ⟨hdvd, hle⟩
    exact not_readBack h hdvd hle hback
  · intro hnot
    have hlen := @packetLength_packetHeader packetType flags _ h
    rw [if_neg fun ⟨hmod, hle⟩ => hnot ⟨Nat.dvd_of_mod_eq_zero hmod, hle⟩] at hlen
    refine ⟨_, emitOnePacket_large h, ?_, fun rest => ?_⟩
    · rw [List.take_left' (length_packetHeader packetType flags _), hlen]
    · rw [List.append_assoc]
      exact readPacket_run rfl h hlen rest

/-- An empty packet is read back. -/
theorem readBack_empty : ReadBack .data 0 [] :=
  (readBack_iff .data 0 [] (by decide)).2 (by decide)

/-- A packet of `8 * 65536` bytes is not. -/
theorem not_readBack_of_halfMiB : ¬ ReadBack .data 0 (List.replicate 524280 0) := by
  have hlength : (List.replicate 524280 (0 : UInt8)).length = 524280 := List.length_replicate
  refine not_readBack ?_ ?_ ?_ <;> rw [hlength] <;> decide

end One

/-! ### Messages that are split -/

/-- The largest packet for an OCI client. -/
def ociMaxPacket : ℕ := 8111

/-- The bytes of a message that go into one packet. -/
def ociChunk : ℕ := ociMaxPacket - 8 - 2

/-- The packets of a message, each with its data flags. -/
def sduPackets (packetType : PacketType) (flags : UInt8) (dataFlags body : List UInt8) :
    List UInt8 :=
  if body = [] then []
  else
    let plen := 2 + (body.take ociChunk).length
    toBeBytes 4 (8 + plen) ++ (packetBody packetType flags (dataFlags ++ body.take ociChunk) ++
      sduPackets packetType flags dataFlags (body.drop ociChunk))
termination_by body.length
decreasing_by
  have hpos : 0 < body.length := List.length_pos_iff.2 ‹_›
  have hchunk : 0 < ociChunk := by decide
  rw [List.length_drop]
  omega

/-- `write_packet_flags`. -/
def writePacketFlags (mode : SduMode) (ociClient : Bool) (packetType : PacketType) (flags : UInt8)
    (payload : List UInt8) : Except String (List UInt8) :=
  if ociClient = true ∧ packetType = .data ∧ 2 < payload.length ∧
      ociMaxPacket < 8 + payload.length then
    .ok (sduPackets packetType flags (payload.take 2) (payload.drop 2))
  else emitOnePacket mode packetType flags payload

/-- A packet of a message: not too long, with the flags of the message, and not empty. -/
structure PartOf (flags : UInt8) (dataFlags : List UInt8) (p : Packet) : Prop where
  fits : 8 + p.payload.length ≤ ociMaxPacket
  data : p.packetType = .data
  header : p.flags = flags
  flagged : p.payload.take 2 = dataFlags
  nonempty : p.payload.drop 2 ≠ []

/-- What a packet has of its message. -/
def Packet.body (p : Packet) : List UInt8 := p.payload.drop 2

/-- A short packet is read back. -/
lemma readPacket_run_short {flags : UInt8} {payload : List UInt8}
    (h : 8 + payload.length ≤ ociMaxPacket) (rest : List UInt8) :
    (readPacket .large true).run
        (toBeBytes 4 (8 + payload.length) ++ (packetBody .data flags payload ++ rest)) =
      .ok ⟨.data, flags, payload⟩ rest := by
  have hmax : 8 + payload.length ≤ 8111 := h
  have hlarge : 8 + payload.length ≤ maxPacketSize := hmax.trans (by decide)
  have hlen := @packetLength_packetHeader .data flags _ hlarge
  rw [if_neg (by omega)] at hlen
  rw [← List.append_assoc, packetHeader_append, List.append_assoc]
  exact readPacket_run rfl hlarge hlen rest

/-- The packets of a message are read one by one, and together they have all of it. -/
lemma sduPackets_reads {flags : UInt8} {dataFlags : List UInt8} (hflags : dataFlags.length = 2)
    (body : List UInt8) : ∃ packets,
      (readPacket .large true).Reads (sduPackets .data flags dataFlags body) packets ∧
      (∀ p ∈ packets, PartOf flags dataFlags p) ∧ packets.flatMap Packet.body = body := by
  fun_induction sduPackets .data flags dataFlags body with
  | case1 => exact ⟨[], .nil, by simp, rfl⟩
  | case2 body hne plen ih =>
    obtain ⟨packets, hreads, hparts, hbody⟩ := ih
    have hchunk : (body.take ociChunk).length ≤ 8101 := List.length_take_le _ _
    have hlen : (dataFlags ++ body.take ociChunk).length = plen := by
      rw [List.length_append, hflags]
    have hfits : 8 + (dataFlags ++ body.take ociChunk).length ≤ ociMaxPacket := by
      rw [List.length_append, hflags, show ociMaxPacket = 8111 from rfl]
      omega
    have hrun := @readPacket_run_short flags _ hfits
      (sduPackets .data flags dataFlags (body.drop ociChunk))
    rw [hlen] at hrun
    have hdrop : (dataFlags ++ body.take ociChunk).drop 2 = body.take ociChunk :=
      List.drop_left' hflags
    refine ⟨_, .cons hrun hreads, ?_, ?_⟩
    · intro p hp
      rcases List.mem_cons.1 hp with rfl | hp
      · refine ⟨hfits, rfl, rfl, List.take_left' hflags, ?_⟩
        rw [hdrop]
        simpa using ⟨by decide, hne⟩
      · exact hparts p hp
    · rw [List.flatMap_cons, hbody, Packet.body, hdrop, List.take_append_drop]

/-- **A message for an OCI client is read packet by packet up to its end**: the packets are short,
have the data flags of the message and are not empty, and their bodies together are the message. A
message that fits into one packet is one. -/
theorem writePacketFlags_reads (flags : UInt8) (payload : List UInt8)
    (h : 2 < payload.length) : ∃ bytes packets,
      writePacketFlags .large true .data flags payload = .ok bytes ∧
      (readPacket .large true).Reads bytes packets ∧
      (∀ p ∈ packets, PartOf flags (payload.take 2) p) ∧
      packets.flatMap Packet.body = payload.drop 2 ∧
      (8 + payload.length ≤ ociMaxPacket → packets = [⟨.data, flags, payload⟩]) := by
  have hflags : (payload.take 2).length = 2 := by
    rw [List.length_take]
    omega
  by_cases hsplit : ociMaxPacket < 8 + payload.length
  · obtain ⟨packets, hreads, hparts, hbody⟩ :=
      @sduPackets_reads flags _ hflags (payload.drop 2)
    refine ⟨_, packets, if_pos ⟨rfl, rfl, h, hsplit⟩, hreads, hparts, hbody, fun hle => ?_⟩
    omega
  · have hle : 8 + payload.length ≤ ociMaxPacket := Nat.le_of_not_lt hsplit
    have hlarge : 8 + payload.length ≤ maxPacketSize := hle.trans (by decide)
    have hrun := @readPacket_run_short flags _ hle []
    rw [List.append_nil] at hrun
    have hwrite : writePacketFlags .large true .data flags payload =
        emitOnePacket .large .data flags payload := if_neg fun hs => hsplit hs.2.2.2
    rw [emitOnePacket_large hlarge, ← packetHeader_append] at hwrite
    refine ⟨_, [⟨.data, flags, payload⟩], hwrite, .cons hrun .nil, ?_, ?_, fun _ => rfl⟩
    · intro p hp
      obtain rfl := List.mem_singleton.1 hp
      refine ⟨hle, rfl, rfl, rfl, fun hnil => ?_⟩
      have := congrArg List.length hnil
      rw [List.length_drop, List.length_nil] at this
      dsimp only at this
      omega
    · rw [List.flatMap_cons, List.flatMap_nil, List.append_nil]
      rfl

/-- A message of three bytes. -/
theorem writePacketFlags_three : ∃ bytes packets,
    writePacketFlags .large true .data 0 [0, 0, 9] = .ok bytes ∧
      (readPacket .large true).Reads bytes packets ∧
      (∀ p ∈ packets, PartOf 0 [0, 0] p) ∧ packets.flatMap Packet.body = [9] ∧
      (11 ≤ ociMaxPacket → packets = [⟨.data, 0, [0, 0, 9]⟩]) :=
  writePacketFlags_reads 0 [0, 0, 9] (by decide)

end DbSaci.Server
