import DbSaci.Library.Runs
import DbSaci.Server.Framing

set_option relaxedAutoImplicit false
set_option autoImplicit false

/-!
# Markers that are waited for

Behind an error for an OCI client the server waits for the markers of the client, each for some
time. A packet that is no marker ends the waiting, and so does the end of the time. The packet is
dropped in the first case, and the bytes of a packet that has come in partly in the second.

## Main definitions

* `ClientStream` — what a client sends.
* `Handshake.step` — the waiting, and what can happen to it.
* `Handshake.Exact` — the session loop goes on with the first packet behind the markers.
* `Handshake.Harmless` — a step that drops nothing.

## Main results

* `Handshake.exact_iff_harmless` — the session loop goes on with the right packet if and only if no
  step has dropped anything.
-/

namespace DbSaci.Server

/-- What a client sends: packets, one after the other. -/
structure ClientStream (mode : SduMode) (ociClient : Bool) where
  bytes : List UInt8
  packets : List Packet
  reads : (readPacket mode ociClient).Reads bytes packets

/-- The server waits for a marker, or does not any more. -/
inductive HandshakeStatus
  | reading
  | returned
  | failed
  deriving DecidableEq, Repr

/-- The waiting for markers. -/
structure Handshake where
  /-- What has come in so far. -/
  received : List UInt8
  /-- What has come in and has not been read. -/
  buffered : List UInt8
  /-- What the packet that is being read has taken. -/
  taken : List UInt8
  /-- How many markers are waited for. -/
  left : ℕ
  /-- The markers that have been read. -/
  consumed : List Packet
  /-- What has been answered. -/
  written : List UInt8
  status : HandshakeStatus
  deriving DecidableEq

namespace Handshake

/-- What can happen. -/
inductive Event
  /-- A chunk of the client's stream comes in. -/
  | receive (chunk : List UInt8)
  /-- The reader goes on. A client may not take the answer to a marker. -/
  | poll (accepted : Bool)
  /-- The time is over, for the marker or for a client that is idle. The reader goes on first. -/
  | expire (accepted : Bool)
  deriving DecidableEq

variable (mode : SduMode) (ociClient acknowledges : Bool)

/-- `drain_markers` or `ack_client_markers` is called for so many markers. -/
def start (max : ℕ) : Handshake where
  received := []
  buffered := []
  taken := []
  left := max
  consumed := []
  written := []
  status := if max = 0 then .returned else .reading

/-- What is written for a marker, if the client takes it. -/
def answer (accepted : Bool) : Option (List UInt8) :=
  if acknowledges = false then some []
  else if accepted = false then none
  else (writePacketFlags mode ociClient .marker 0 [0x02, 0x00, 0x02]).toOption

/-- A marker has been read. -/
def markerRead (h : Handshake) (p : Packet) (rest : List UInt8) :
    Option (List UInt8) → Handshake
  | none => { h with
      taken := []
      buffered := rest
      consumed := h.consumed ++ [p]
      status := .failed }
  | some bytes => { h with
      taken := []
      buffered := rest
      left := h.left - 1
      consumed := h.consumed ++ [p]
      written := h.written ++ bytes
      status := if h.left ≤ 1 then .returned else .reading }

/-- The bytes of the packet that is being read. -/
def current (h : Handshake) : List UInt8 := h.taken ++ h.buffered

/-- The reader goes on. -/
def poll (h : Handshake) (accepted : Bool) : Handshake :=
  match (readPacket mode ociClient).run h.current with
  | .incomplete => { h with taken := h.current, buffered := [] }
  | .error =>
    { h with
      taken := []
      buffered := (readPacket mode ociClient).left h.current
      status := .returned }
  | .ok p rest =>
    if p.packetType = .marker then h.markerRead p rest (answer mode ociClient acknowledges accepted)
    else { h with taken := [], buffered := rest, status := .returned }

/-- The packet that is being read has not come in completely. -/
def Pending (h : Handshake) : Prop := (readPacket mode ociClient).run h.current = .incomplete

instance (h : Handshake) : Decidable (h.Pending mode ociClient) :=
  match hrun : (readPacket mode ociClient).run h.current with
  | .incomplete => .isTrue hrun
  | .error => .isFalse fun hpending => by rw [Pending, hrun] at hpending; cases hpending
  | .ok _ _ => .isFalse fun hpending => by rw [Pending, hrun] at hpending; cases hpending

/-- What an event does. -/
def step (h : Handshake) : Event → Handshake
  | .receive chunk => { h with received := h.received ++ chunk, buffered := h.buffered ++ chunk }
  | .poll accepted => if h.status = .reading then h.poll mode ociClient acknowledges accepted else h
  | .expire accepted =>
    if h.status = .reading then
      -- the reader is dropped with the bytes it has taken
      if h.Pending mode ociClient then { h with taken := [], buffered := [], status := .returned }
      else h.poll mode ociClient acknowledges accepted
    else h

variable {mode ociClient}

/-- The steps while a client sends its packets. -/
def Step (client : ClientStream mode ociClient) (h : Handshake) (e : Event) (h' : Handshake) :
    Prop :=
  h' = h.step mode ociClient acknowledges e ∧ h'.received <+: client.bytes

/-- **Nothing is swallowed**: what has been read are the first packets of the client, all of them
markers, and the session loop reads the others, one after the other and up to the end. -/
def Exact (client : ClientStream mode ociClient) (h : Handshake) : Prop :=
  (∀ p ∈ h.consumed, p.packetType = .marker) ∧
    ∀ remaining, h.received ++ remaining = client.bytes → ∃ next,
      (readPacket mode ociClient).Reads (h.buffered ++ remaining) next ∧
        client.packets = h.consumed ++ next

variable (mode ociClient)

/-- The packet that comes next is a marker, if it has come in. -/
def MarkerNext (h : Handshake) : Prop :=
  ∀ p rest, (readPacket mode ociClient).run h.current = .ok p rest → p.packetType = .marker

/-- **A step that drops nothing**: a packet that is read is a marker, and when the time is over no
packet has come in partly. -/
def Harmless (h : Handshake) : Event → Prop
  | .receive _ => True
  | .poll _ => h.status = .reading → h.MarkerNext mode ociClient
  | .expire _ => h.status = .reading →
    h.MarkerNext mode ociClient ∧ (h.Pending mode ociClient → h.current = [])

end Handshake

/-! ### Sizes -/

/-- The bytes of a packet. -/
def Packet.size (p : Packet) : ℕ := 8 + p.payload.length

section Sizes

variable {buf s rest : List UInt8}

lemma readMore_length {n : ℕ} {more : List UInt8} (h : (readMore buf n).run s = .ok more rest) :
    buf.length + s.length = more.length + rest.length := by
  rw [readMore] at h
  split_ifs at h
  · cases h
  · obtain ⟨hle, h⟩ := Reader.run_exact_ok h
    cases h
    rw [List.length_append, List.length_take_of_le hle, List.length_drop]
    omega

lemma completeUb_length {off : ℕ} {r : List UInt8 × ℕ}
    (h : (completeUb buf off).run s = .ok r rest) :
    buf.length + s.length = r.1.length + rest.length := by
  have hmore : ∀ {c : Prop} [Decidable c] {b b' : List UInt8} {n : ℕ} {t t' : List UInt8},
      (if c then readMore b n else .done b).run t = .ok b' t' →
        b.length + t.length = b'.length + t'.length := by
    intro c _ b b' n t t' hrun
    split_ifs at hrun
    · exact readMore_length hrun
    · cases hrun
      rfl
  obtain ⟨b, t, hfirst, h⟩ := Reader.of_run_bind h
  rw [hmore hfirst]
  cases hb : b[off]? with
  | none =>
    rw [hb] at h
    cases h
  | some l =>
    rw [hb] at h
    dsimp only at h
    by_cases hlong : 8 < l.toNat % 128
    · rw [if_pos hlong] at h
      cases h
    · rw [if_neg hlong] at h
      obtain ⟨b', t', hsecond, h⟩ := Reader.of_run_bind h
      cases h
      exact hmore hsecond

/-- A packet takes the bytes of its header and of its payload. -/
lemma readPacket_length {mode : SduMode} {ociClient : Bool} {p : Packet}
    (h : (readPacket mode ociClient).run s = .ok p rest) : s.length = p.size + rest.length := by
  obtain ⟨hheader, h⟩ := Reader.run_exact_ok h
  dsimp only at h
  split_ifs at h with hlength
  · cases htype : (s.take 8)[4]?.bind PacketType.ofU8 with
    | none =>
      rw [htype] at h
      cases h
    | some packetType =>
      rw [htype] at h
      obtain ⟨hpayload, h⟩ := Reader.run_exact_ok h
      have htotal : s.length = 8 + (((s.drop 8).take (packetLength (s.take 8) mode - 8)).length +
          ((s.drop 8).drop (packetLength (s.take 8) mode - 8)).length) := by
        rw [List.length_take_of_le hpayload, List.length_drop, List.length_drop]
        rw [List.length_drop] at hpayload
        omega
      rw [htotal, Packet.size, Nat.add_assoc]
      refine congrArg (8 + ·) ?_
      split_ifs at h with hfetch
      · obtain ⟨_, t, hfirst, h⟩ := Reader.of_run_bind h
        obtain ⟨_, u, hsecond, h⟩ := Reader.of_run_bind h
        cases h
        exact (completeUb_length hfirst).trans (completeUb_length hsecond)
      · cases h
        rfl
  · cases h

/-- What has come in has the bytes of the packets that have been read, and of those that are still
to be read, up to here. -/
lemma ClientStream.length_received {mode : SduMode} {ociClient : Bool}
    (client : ClientStream mode ociClient) {consumed next : List Packet}
    {received remaining : List UInt8} (hbytes : received ++ remaining = client.bytes)
    (hnext : (readPacket mode ociClient).Reads (s ++ remaining) next)
    (hpackets : client.packets = consumed ++ next) :
    received.length = Reader.total Packet.size consumed + s.length := by
  have hall := client.reads.length_eq readPacket_length
  have hrest := hnext.length_eq readPacket_length
  rw [← hbytes, hpackets, Reader.total_append, List.length_append] at hall
  rw [List.length_append] at hrest
  omega

end Sizes

namespace Handshake

variable {mode : SduMode} {ociClient : Bool} {client : ClientStream mode ociClient}
  {h : Handshake} {acknowledges : Bool}

/-! ### What is kept -/

/-- **What is kept**: the markers that have been read, and behind them the packets of the client,
from the first byte of the one that is being read. -/
structure Kept (client : ClientStream mode ociClient) (h : Handshake) : Prop where
  pre : h.received <+: client.bytes
  markers : ∀ p ∈ h.consumed, p.packetType = .marker
  stream : ∀ remaining, h.received ++ remaining = client.bytes → ∃ next,
    (readPacket mode ociClient).Reads (h.current ++ remaining) next ∧
      client.packets = h.consumed ++ next
  idle : h.status ≠ .reading → h.taken = []

/-- **What is lost**: some bytes belong neither to the markers that have been read nor to what is
still to be read. -/
structure Lost (client : ClientStream mode ociClient) (h : Handshake) : Prop where
  pre : h.received <+: client.bytes
  idle : h.status ≠ .reading
  fewer : Reader.total Packet.size h.consumed + h.buffered.length < h.received.length

namespace Kept

lemma start (max : ℕ) : Kept client (start max) where
  pre := List.nil_prefix
  markers _ hp := absurd hp List.not_mem_nil
  stream _ hbytes := ⟨client.packets, hbytes ▸ client.reads, rfl⟩
  idle _ := rfl

lemma exact (hk : Kept client h) (hidle : h.status ≠ .reading) : Exact client h := by
  refine ⟨hk.markers, fun remaining hbytes => ?_⟩
  have hstream := hk.stream remaining hbytes
  rwa [current, hk.idle hidle, List.nil_append] at hstream

/-- All bytes belong to the markers that have been read or to what is still to be read. -/
lemma length_eq (hk : Kept client h) :
    h.received.length = Reader.total Packet.size h.consumed + h.current.length := by
  obtain ⟨remaining, hbytes⟩ := hk.pre
  obtain ⟨next, hnext, hpackets⟩ := hk.stream remaining hbytes
  exact client.length_received hbytes hnext hpackets

/-- The stream of a client has no errors. -/
lemma run_ne_error (hk : Kept client h) :
    (readPacket mode ociClient).run h.current ≠ .error := by
  intro herror
  obtain ⟨remaining, hbytes⟩ := hk.pre
  obtain ⟨next, hnext, -⟩ := hk.stream remaining hbytes
  have hrun := Reader.run_append_error herror remaining
  generalize hs : h.current ++ remaining = s at hnext hrun
  cases hnext with
  | nil => cases hrun
  | cons hfirst hrest =>
    rw [hrun] at hfirst
    cases hfirst

lemma receive (hk : Kept client h) {chunk : List UInt8}
    (hpre : h.received ++ chunk <+: client.bytes) :
    Kept client { h with received := h.received ++ chunk, buffered := h.buffered ++ chunk } where
  pre := hpre
  markers := hk.markers
  stream remaining hbytes := by
    obtain ⟨next, hnext, hpackets⟩ :=
      hk.stream (chunk ++ remaining) ((List.append_assoc _ _ _).symm.trans hbytes)
    refine ⟨next, ?_, hpackets⟩
    simpa only [current, List.append_assoc] using hnext
  idle := hk.idle

/-- A marker that has been read is the first of the packets. -/
lemma markerRead (hk : Kept client h) {p : Packet} {rest : List UInt8}
    (hrun : (readPacket mode ociClient).run h.current = .ok p rest) (hp : p.packetType = .marker)
    (written : Option (List UInt8)) : Kept client (h.markerRead p rest written) := by
  have hmarkers : ∀ q ∈ h.consumed ++ [p], q.packetType = .marker := by
    intro q hq
    rcases List.mem_append.1 hq with hq | hq
    · exact hk.markers q hq
    · rw [List.mem_singleton.1 hq]
      exact hp
  have hstream : ∀ remaining, h.received ++ remaining = client.bytes → ∃ next,
      (readPacket mode ociClient).Reads (rest ++ remaining) next ∧
        client.packets = h.consumed ++ [p] ++ next := by
    intro remaining hbytes
    obtain ⟨next, hnext, hpackets⟩ := hk.stream remaining hbytes
    obtain ⟨others, rfl, hothers⟩ :=
      hnext.of_run (readPacket_takes _ _) (Reader.run_append hrun remaining)
    refine ⟨others, hothers, ?_⟩
    rw [hpackets, List.append_assoc, List.singleton_append]
  cases written with
  | none => exact ⟨hk.pre, hmarkers, hstream, fun _ => rfl⟩
  | some bytes => exact ⟨hk.pre, hmarkers, hstream, fun _ => rfl⟩

/-- The reader goes on, and what it finds is a marker. -/
lemma poll (hk : Kept client h) (hreading : h.status = .reading)
    (hmarker : h.MarkerNext mode ociClient) (accepted : Bool) :
    Kept client (h.poll mode ociClient acknowledges accepted) := by
  rw [Handshake.poll]
  cases hrun : (readPacket mode ociClient).run h.current with
  | incomplete =>
    refine ⟨hk.pre, hk.markers, fun remaining hbytes => ?_, fun hidle => absurd hreading hidle⟩
    have hstream := hk.stream remaining hbytes
    rwa [← List.append_nil h.current] at hstream
  | error => exact absurd hrun hk.run_ne_error
  | ok p rest =>
    have hp := hmarker p rest hrun
    dsimp only
    rw [if_pos hp]
    exact hk.markerRead hrun hp _

/-- **A step that drops nothing** keeps the stream. -/
theorem step (hk : Kept client h) {e : Event} {h' : Handshake}
    (hstep : Step acknowledges client h e h') (he : h.Harmless mode ociClient e) :
    Kept client h' := by
  obtain ⟨rfl, hpre⟩ := hstep
  cases e with
  | receive chunk => exact hk.receive hpre
  | poll accepted =>
    rw [Handshake.step]
    split_ifs with hreading
    · exact hk.poll hreading (he hreading) accepted
    · exact hk
  | expire accepted =>
    rw [Handshake.step]
    split_ifs with hreading hpending
    · refine ⟨hk.pre, hk.markers, fun remaining hbytes => ?_, fun _ => rfl⟩
      have hstream := hk.stream remaining hbytes
      rwa [(he hreading).2 hpending] at hstream
    · exact hk.poll hreading (he hreading).1 accepted
    · exact hk

/-- A packet that is no marker is dropped. -/
lemma lost_poll (hk : Kept client h) (hmarker : ¬ h.MarkerNext mode ociClient) (accepted : Bool) :
    Lost client (h.poll mode ociClient acknowledges accepted) := by
  obtain ⟨p, rest, hrun, hp⟩ : ∃ p rest,
      (readPacket mode ociClient).run h.current = .ok p rest ∧ p.packetType ≠ .marker := by
    simpa only [MarkerNext, not_forall, exists_prop] using hmarker
  have hlength := hk.length_eq
  rw [readPacket_length hrun] at hlength
  rw [Handshake.poll, hrun]
  dsimp only
  rw [if_neg hp]
  refine ⟨hk.pre, by simp, ?_⟩
  dsimp only
  rw [hlength, Packet.size]
  omega

/-- **A step that drops something** loses it. -/
theorem lost (hk : Kept client h) {e : Event} {h' : Handshake}
    (hstep : Step acknowledges client h e h') (he : ¬ h.Harmless mode ociClient e) :
    Lost client h' := by
  obtain ⟨rfl, -⟩ := hstep
  cases e with
  | receive chunk => exact absurd trivial he
  | poll accepted =>
    obtain ⟨hreading, hmarker⟩ := Classical.not_imp.1 he
    rw [Handshake.step, if_pos hreading]
    exact hk.lost_poll hmarker accepted
  | expire accepted =>
    obtain ⟨hreading, hnot⟩ := Classical.not_imp.1 he
    rw [Handshake.step, if_pos hreading]
    split_ifs with hpending
    · have hmarker : h.MarkerNext mode ociClient := by
        intro p rest hrun
        cases hpending.symm.trans hrun
      have hne : h.current ≠ [] := fun hnil => hnot ⟨hmarker, fun _ => hnil⟩
      have hlength := hk.length_eq
      have hpos := List.length_pos_iff.2 hne
      refine ⟨hk.pre, by simp, ?_⟩
      dsimp only
      rw [hlength, List.length_nil]
      omega
    · exact hk.lost_poll (fun hmarker => hnot ⟨hmarker, fun hp => absurd hp hpending⟩) accepted

end Kept

namespace Lost

/-- What is lost does not come back. -/
lemma step (hl : Lost client h) {e : Event} {h' : Handshake}
    (hstep : Step acknowledges client h e h') : Lost client h' := by
  obtain ⟨rfl, hpre⟩ := hstep
  cases e with
  | receive chunk =>
    refine ⟨hpre, hl.idle, ?_⟩
    have hfewer := hl.fewer
    dsimp only [Handshake.step]
    rw [List.length_append, List.length_append]
    omega
  | poll accepted =>
    rw [Handshake.step, if_neg hl.idle]
    exact hl
  | expire accepted =>
    rw [Handshake.step, if_neg hl.idle]
    exact hl

lemma not_exact (hl : Lost client h) : ¬ Exact client h := by
  rintro ⟨-, hstream⟩
  obtain ⟨remaining, hbytes⟩ := hl.pre
  obtain ⟨next, hnext, hpackets⟩ := hstream remaining hbytes
  have hfewer := hl.fewer
  rw [client.length_received hbytes hnext hpackets] at hfewer
  exact Nat.lt_irrefl _ hfewer

end Lost

/-! ### Runs -/

/-- **The session loop goes on with the right packet** if and only if no step has dropped anything:
every packet that has been read is a marker, and the time was never over behind the first byte of a
packet. -/
theorem exact_iff_harmless (client : ClientStream mode ociClient) (acknowledges : Bool) (max : ℕ)
    (es : List Event) (h : Handshake) (hrun : Run (Step acknowledges client) (start max) es h)
    (hidle : h.status ≠ .reading) :
    Exact client h ↔
      Run (Guarded (Step acknowledges client) (Harmless mode ociClient)) (start max) es h := by
  constructor
  · intro hexact
    rcases hrun.guarded_or (Kept.start max) (fun hk hstep he => hk.step hstep he)
      (fun hk hstep he => hk.lost hstep he) (fun hl hstep => hl.step hstep) with
      ⟨hguarded, -⟩ | hlost
    · exact hguarded
    · exact absurd hexact hlost.not_exact
  · intro hguarded
    have hkept : Kept client h :=
      hguarded.invariant (Kept.start max) fun hk hstep => hk.step hstep.1 hstep.2
    exact hkept.exact hidle

/-- The marker by which an OCI client echoes a reset. -/
def resetPacket : List UInt8 := [0, 11, 0, 0, 12, 0x20, 0, 0, 1, 0, 2]

lemma run_executePacket : (readPacket .large true).run Link.executePacket =
    .ok ⟨.data, 0, [0, 0, 0x03, 0x5e, 1]⟩ [] := rfl

lemma run_resetPacket : (readPacket .large true).run (resetPacket ++ Link.executePacket) =
    .ok ⟨.marker, 0x20, [1, 0, 2]⟩ Link.executePacket := rfl

/-- A client that echoes the reset and sends the next request. -/
def echoingClient : ClientStream .large true where
  bytes := resetPacket ++ Link.executePacket
  packets := [⟨.marker, 0x20, [1, 0, 2]⟩, ⟨.data, 0, [0, 0, 0x03, 0x5e, 1]⟩]
  reads := .cons run_resetPacket (.cons run_executePacket .nil)

/-- A client that has sent the next request already. -/
def pipeliningClient : ClientStream .large true where
  bytes := Link.executePacket
  packets := [⟨.data, 0, [0, 0, 0x03, 0x5e, 1]⟩]
  reads := .cons run_executePacket .nil

/-- The echo comes in two parts, the second one with the start of the request. -/
theorem echoedReset_exact : ∃ h, Run (Step false echoingClient) (start 1)
    [.receive (resetPacket.take 5), .poll true,
      .receive (resetPacket.drop 5 ++ Link.executePacket.take 3), .poll true] h ∧
    Exact echoingClient h := by
  have hguarded : Run (Guarded (Step false echoingClient) (Harmless .large true)) (start 1)
      [.receive (resetPacket.take 5), .poll true,
        .receive (resetPacket.drop 5 ++ Link.executePacket.take 3), .poll true] _ :=
    .cons ⟨⟨rfl, by decide⟩, trivial⟩ <|
      .cons ⟨⟨rfl, by decide⟩, fun _ p rest hrun => by cases hrun⟩ <|
      .cons ⟨⟨rfl, by decide⟩, trivial⟩ <|
      .cons ⟨⟨rfl, by decide⟩, fun _ p rest hrun => by cases hrun; rfl⟩ (.nil _)
  exact ⟨_, hguarded.of_guarded,
    (exact_iff_harmless echoingClient false 1 _ _ hguarded.of_guarded (by decide)).2 hguarded⟩

/-- A request that comes instead of the echo is dropped. -/
theorem pipelinedRequest_swallowed : ∃ h,
    Run (Step false pipeliningClient) (start 1) [.receive Link.executePacket, .poll true] h ∧
      h.status ≠ .reading ∧ ¬ Exact pipeliningClient h := by
  refine ⟨_, .cons ⟨rfl, by decide⟩ (.cons ⟨rfl, by decide⟩ (.nil _)), by decide, ?_⟩
  exact Lost.not_exact ⟨by decide, by decide, by decide⟩

/-- The first bytes of an echo are dropped if the time is over then. -/
theorem splitEcho_swallowed : ∃ h,
    Run (Step false echoingClient) (start 1) [.receive (resetPacket.take 5), .expire true] h ∧
      h.status ≠ .reading ∧ ¬ Exact echoingClient h := by
  refine ⟨_, .cons ⟨rfl, by decide⟩ (.cons ⟨rfl, by decide⟩ (.nil _)), by decide, ?_⟩
  exact Lost.not_exact ⟨by decide, by decide, by decide⟩

end Handshake

end DbSaci.Server
