import DbSaci.Library.Reader

set_option relaxedAutoImplicit false
set_option autoImplicit false

/-!
# Packets that come in while a statement runs

The session loop reads a packet, and while a statement runs `race_break` reads the next one. When
the statement completes first, the packet that is being read is dropped with the bytes it has
taken; and a packet that is read completely is answered only if it is a marker.

## Main definitions

* `readPacket` — the reader of one packet.
* `Link`, `Link.step` — the session with its stream, and what can happen to it.
* `Link.Faithful` — the packets that were processed are the ones that were sent.
* `Link.Undropped` — nothing is dropped by a step.

## Main results

* `Link.faithful_of_undropped` — runs in which nothing is dropped.
* `Link.splitPacket_not_faithful` — a packet that has come in partly when the statement completes.
-/

namespace DbSaci.Server

/-! ### Packets -/

/-- The types of packets. -/
inductive PacketType
  | connect
  | accept
  | ack
  | refuse
  | redirect
  | data
  | null
  | abort
  | resend
  | marker
  | attention
  | control
  deriving DecidableEq, Repr

/-- `PacketType::try_from`. -/
def PacketType.ofU8 (b : UInt8) : Option PacketType :=
  if b = 1 then some connect
  else if b = 2 then some accept
  else if b = 3 then some ack
  else if b = 4 then some refuse
  else if b = 5 then some redirect
  else if b = 6 then some data
  else if b = 7 then some null
  else if b = 9 then some abort
  else if b = 11 then some resend
  else if b = 12 then some marker
  else if b = 13 then some attention
  else if b = 14 then some control
  else none

/-- A packet. -/
structure Packet where
  packetType : PacketType
  flags : UInt8
  payload : List UInt8
  deriving DecidableEq, Repr

/-- The two forms of the length of a packet. -/
inductive SduMode
  | small
  | large
  deriving DecidableEq, Repr

/-- A big-endian number. -/
def beNat (s : List UInt8) : ℕ := s.foldl (fun n b => n * 256 + b.toNat) 0

/-- `packet_length`. -/
def packetLength (header : List UInt8) : SduMode → ℕ
  | .small => beNat (header.take 2)
  | .large =>
    let smallLength := beNat (header.take 2)
    if header[2]? = some 0 ∧ header[3]? = some 0 ∧ 8 ≤ smallLength then smallLength
    else beNat (header.take 4)

/-- `MAX_TNS_PACKET_SIZE`. -/
def maxPacketSize : ℕ := 64 * 1024 * 1024

/-- `read_more`: so many bytes behind what was read. -/
def readMore (buf : List UInt8) (n : ℕ) : Reader UInt8 (List UInt8) :=
  if maxPacketSize < buf.length + n then .fail else .exact n fun s => .done (buf ++ s)

/-- `complete_ub`: what was read, with a whole number from an offset on, and the offset behind
it. -/
def completeUb (buf : List UInt8) (off : ℕ) : Reader UInt8 (List UInt8 × ℕ) :=
  (if buf.length ≤ off then readMore buf (off + 1 - buf.length) else .done buf).bind fun buf =>
    match buf[off]? with
    | none => .fail
    | some b =>
      let l := b.toNat % 128
      if 8 < l then .fail
      else
        (if buf.length < off + 1 + l then readMore buf (off + 1 + l - buf.length)
          else .done buf).bind fun buf => .done (buf, off + 1 + l)

/-- `read_packet`. The fetch request of a client that is no OCI client is completed. -/
def readPacket (mode : SduMode) (ociClient : Bool) : Reader UInt8 Packet :=
  .exact 8 fun header =>
    let length := packetLength header mode
    if ¬ (8 ≤ length ∧ length ≤ maxPacketSize) then .fail
    else
      match header[4]?.bind PacketType.ofU8 with
      | none => .fail
      | some packetType =>
        let flags := header[5]?.getD 0
        .exact (length - 8) fun payload =>
          if packetType = .data ∧ 5 ≤ payload.length ∧ ociClient = false ∧
              payload[2]? = some 0x03 ∧ payload[3]? = some 0x05 then
            (completeUb payload 5).bind fun (payload, off) =>
              (completeUb payload off).bind fun (payload, _) => .done ⟨packetType, flags, payload⟩
          else .done ⟨packetType, flags, payload⟩

/-- A packet has a header. -/
lemma readPacket_takes (mode : SduMode) (ociClient : Bool) :
    (readPacket mode ociClient).Takes := fun _ _ _ h => Reader.length_rest_lt (by decide) h

/-! ### The session and its stream -/

/-- A session with the stream it reads from. -/
structure Link where
  /-- What the client has sent. -/
  sent : List UInt8
  /-- What has come in and has not been read. -/
  buffered : List UInt8
  /-- What the packet that is being read has taken. -/
  taken : List UInt8
  /-- A statement runs, and `race_break` reads the packets. -/
  running : Bool
  /-- The packets that were acted upon. -/
  processed : List Packet
  /-- The packets that were left unanswered. -/
  ignored : List Packet
  /-- An error has ended the session. -/
  ended : Bool
  deriving DecidableEq, Repr

/-- What can happen. -/
inductive Event
  /-- A chunk of the client's stream comes in. -/
  | receive (chunk : List UInt8)
  /-- The reader goes on; a packet that is read by the session loop may start a statement. -/
  | poll (starts : Bool)
  /-- The statement completes; another part of it may follow. -/
  | complete (again : Bool)
  deriving DecidableEq, Repr

namespace Link

/-- A session that waits for a packet. -/
def init : Link := ⟨[], [], [], false, [], [], false⟩

variable (mode : SduMode) (ociClient : Bool)

/-- What an event does. -/
def step (l : Link) : Event → Link
  | .receive chunk => { l with sent := l.sent ++ chunk, buffered := l.buffered ++ chunk }
  | .poll starts =>
    if l.ended = true then l
    else
      match (readPacket mode ociClient).run (l.taken ++ l.buffered) with
      | .incomplete => { l with taken := l.taken ++ l.buffered, buffered := [] }
      | .error => { l with ended := true }
      | .ok p rest =>
        if l.running = true then
          -- the statement is cancelled for a marker, and every other packet is only logged
          if p.packetType = .marker then
            { l with taken := [], buffered := rest, processed := l.processed ++ [p] }
          else { l with taken := [], buffered := rest, ignored := l.ignored ++ [p] }
        else
          { l with
            taken := []
            buffered := rest
            processed := l.processed ++ [p]
            running := starts }
  | .complete again =>
    if l.running = true ∧ l.ended = false then { l with taken := [], running := again } else l

/-- A run. -/
def run (events : List Event) : Link := events.foldl (step mode ociClient) init

/-- The packets that were processed are those that were sent: whatever else the client sends, the
packets of its stream are these and then the ones that are still to be read. -/
def Faithful (l : Link) : Prop :=
  ∀ rest, (readPacket mode ociClient).framing (l.sent ++ rest) =
    l.processed ++ (readPacket mode ociClient).framing (l.taken ++ (l.buffered ++ rest))

/-- Nothing is dropped: when a statement completes no packet has come in partly, and a packet that
comes in while it runs is a marker. -/
def Undropped (l : Link) : Event → Prop
  | .receive _ => True
  | .poll _ => l.running = true → ∀ p rest,
    (readPacket mode ociClient).run (l.taken ++ l.buffered) = .ok p rest → p.packetType = .marker
  | .complete _ => l.running = true → l.taken = []

variable {mode ociClient}

/-- **A step that drops nothing keeps the stream.** -/
lemma step_faithful {l : Link} (h : l.Faithful mode ociClient) {e : Event}
    (he : l.Undropped mode ociClient e) : (l.step mode ociClient e).Faithful mode ociClient := by
  cases e with
  | receive chunk =>
    intro rest
    have := h (chunk ++ rest)
    simpa [step] using this
  | poll starts =>
    rw [step]
    by_cases hended : l.ended = true
    · rw [if_pos hended]
      exact h
    rw [if_neg hended]
    cases hrun : (readPacket mode ociClient).run (l.taken ++ l.buffered) with
    | incomplete =>
      intro rest
      have := h rest
      simpa using this
    | error => exact h
    | ok p rest =>
      -- the packet is the next one of the stream
      have hnext : ∀ more, (readPacket mode ociClient).framing (l.sent ++ more) =
          (l.processed ++ [p]) ++ (readPacket mode ociClient).framing (rest ++ more) := by
        intro more
        rw [h more, ← List.append_assoc, Reader.framing_append (readPacket_takes _ _) hrun more]
        simp
      dsimp only
      by_cases hrunning : l.running = true
      · rw [if_pos hrunning, if_pos (he hrunning p rest hrun)]
        exact hnext
      · rw [if_neg hrunning]
        exact hnext
  | complete again =>
    rw [step]
    split_ifs with hrunning
    · intro rest
      have := h rest
      rw [he hrunning.1] at this
      exact this
    · exact h

/-- Nor does it leave a packet unanswered. -/
lemma step_ignored {l : Link} (h : l.ignored = []) {e : Event}
    (he : l.Undropped mode ociClient e) : (l.step mode ociClient e).ignored = [] := by
  cases e with
  | receive chunk => exact h
  | poll starts =>
    rw [step]
    by_cases hended : l.ended = true
    · rw [if_pos hended]
      exact h
    rw [if_neg hended]
    cases hrun : (readPacket mode ociClient).run (l.taken ++ l.buffered) with
    | incomplete => exact h
    | error => exact h
    | ok p rest =>
      dsimp only
      by_cases hrunning : l.running = true
      · rw [if_pos hrunning, if_pos (he hrunning p rest hrun)]
        exact h
      · rw [if_neg hrunning]
        exact h
  | complete again =>
    rw [step]
    split_ifs <;> exact h

variable (mode ociClient) in
/-- No step of a run drops anything. -/
def RunUndropped : Link → List Event → Prop
  | _, [] => True
  | l, e :: events => l.Undropped mode ociClient e ∧ RunUndropped (l.step mode ociClient e) events

lemma foldl_faithful {l : Link} (hl : l.Faithful mode ociClient) (hi : l.ignored = [])
    {events : List Event} (h : RunUndropped mode ociClient l events) :
    (events.foldl (step mode ociClient) l).Faithful mode ociClient ∧
      (events.foldl (step mode ociClient) l).ignored = [] := by
  induction events generalizing l with
  | nil => exact ⟨hl, hi⟩
  | cons e events ih => exact ih (step_faithful hl h.1) (step_ignored hi h.1) h.2

lemma RunUndropped.initial {l : Link} {pre events : List Event}
    (h : RunUndropped mode ociClient l events) (hpre : pre <+: events) :
    RunUndropped mode ociClient l pre := by
  induction events generalizing l pre with
  | nil =>
    rw [List.prefix_nil] at hpre
    subst hpre
    trivial
  | cons e events ih =>
    cases pre with
    | nil => trivial
    | cons e' pre =>
      obtain ⟨rfl, htail⟩ := List.cons_prefix_cons.1 hpre
      exact ⟨h.1, ih h.2 htail⟩

/-- **Runs in which nothing is dropped**: in every state of the run the packets that were processed
are those that were sent, each of them once and in order, and none was left unanswered. -/
theorem faithful_of_undropped {events : List Event} (h : RunUndropped mode ociClient init events) :
    ∀ pre, pre <+: events → (run mode ociClient pre).Faithful mode ociClient ∧
      (run mode ociClient pre).ignored = [] :=
  fun _ hpre => foldl_faithful (fun _ => rfl) rfl (h.initial hpre)

/-- An Execute. -/
def executePacket : List UInt8 := [0, 13, 0, 0, 6, 0, 0, 0, 0, 0, 0x03, 0x5e, 1]

/-- A `COMMIT`. -/
def commitPacket : List UInt8 := [0, 13, 0, 0, 6, 0, 0, 0, 0, 0, 0x03, 0x0e, 2]

/-- A client that waits for the answer before it sends the next packet. -/
def waitingClient : List Event :=
  [.receive executePacket, .poll true, .complete false, .receive (commitPacket.take 5),
    .poll true, .receive (commitPacket.drop 5), .poll false]

/-- It is served. -/
theorem waitingClient_faithful :
    (run .large false waitingClient).Faithful .large false ∧
      (run .large false waitingClient).ignored = [] := by
  have h : RunUndropped .large false init waitingClient :=
    ⟨trivial, fun h => absurd h (by decide), fun _ => by decide, trivial,
      fun h => absurd h (by decide), trivial, fun h => absurd h (by decide), trivial⟩
  exact faithful_of_undropped h _ List.prefix_rfl

/-- **A packet that has come in partly when the statement completes is lost.** -/
theorem splitPacket_not_faithful :
    ¬ (run .large false [.receive executePacket, .poll true, .receive (commitPacket.take 5),
      .poll true, .complete false, .receive (commitPacket.drop 5),
      .poll false]).Faithful .large false := by
  intro h
  exact absurd (h []) (by decide)

end Link

end DbSaci.Server
