import DbSaci.Server.Auth
import DbSaci.Server.Credentials
import DbSaci.Server.RaceBreak
import DbSaci.Wire.Negotiation
import DbSaci.Wire.OciAuth

set_option relaxedAutoImplicit false
set_option autoImplicit false

/-!
# From the first packet to the backend

Before the main loop a connection goes through the packets of a client one by one: the connect
request, the negotiation in whatever order the client has it, and the two messages of the login.
Behind them the backend is connected with the name of the user and its password.

## Main definitions

* `Phase` — how far a connection is; `Negotiated`, `Login` — what it knows there.
* `step`, `run` — what a packet does, and a list of packets.
* `Proves` — a packet proves the password of a login.

## Main results

* `backend_authorized` — the backend is connected once at most, with the password that is stored for
  the user, and behind a proof of it.
* `negotiated_eq` — what has been negotiated does not depend on the order of the different requests.
-/

namespace DbSaci.Server.Connection

open Wire Auth

/-! ### The phases of a connection -/

/-- The release that is shown to the clients. -/
inductive OracleVersion
  | v11g
  | v19c
  deriving DecidableEq, Repr

/-- What a client has negotiated so far, and whether the stream splits the messages for it. -/
structure Negotiated where
  didNa : Bool
  proto : ProtocolRequest
  compileCaps : List UInt8
  runtimeCaps : List UInt8
  splits : Bool

namespace Negotiated

/-- Nothing has been negotiated. -/
def start : Negotiated := ⟨false, .empty, [], [], false⟩

variable (n : Negotiated)

/-- The profile of the client. -/
def profile : WireProfile := .new n.didNa n.proto n.compileCaps n.runtimeCaps

/-- The framing of the main loop. -/
def newerDescribeFraming : Bool := n.profile.newerDescribeFraming || n.profile.ociDialect

end Negotiated

/-- A login that waits for the proof of the password. -/
structure Login where
  negotiated : Negotiated
  user : List Char
  password : List Char
  auth : AuthState

/-- How a connection ends before the main loop. -/
inductive End
  | protocol (message : List Char)
  | malformed (error : ReadError)
  | unknownUser
  | authenticationFailed (message : String)
  | panicked
  | backendRefused
  deriving DecidableEq

/-- How far a connection is. -/
inductive Phase
  | connecting
  | reconnecting
  | negotiating (n : Negotiated)
  | proving (l : Login)
  | serving (l : Login)
  | ended (e : End)

/-- What a connection does: packets that are written, with what varies in them, the name that is
registered for the session, and the connection to the backend. -/
inductive Event
  | resend
  | accept (version : ℕ)
  | anoResponse
  | protocolResponse (oci : Bool)
  | dataTypesOci
  | dataTypesNoVersionList
  | dataTypes (bytes : List UInt8)
  | setUser (user : List Char)
  | invalidLogin (responseCompletion newerDescribeFraming ociDialect : Bool)
  | phaseOne11g (sesskey vfr : List Char)
  | phaseOne (p : WireProfile) (sesskey vfr cskSalt : List Char) (vgenCount sderCount : ℕ)
  | phaseTwo (p : WireProfile) (svrResponse : List Char)
  | connectBackend (user password : List Char)
  | backendError
  deriving DecidableEq

/-- What a connection is given: the ciphers, the passwords, the release, what is made up at random
for a login, and the backend, which accepts some users with some passwords. -/
structure Environment where
  primitives : Primitives
  credentials : Credentials
  version : OracleVersion
  vfr : Bytes 16
  serverHalf11g : Bytes 48
  serverHalf12c : Bytes 32
  cskSalt : Bytes 16
  connects : List Char → List Char → Bool

/-! ### What a packet does -/

variable (env : Environment)

/-- The service options of a connect request. -/
def serviceOptions (payload : List UInt8) : ℕ :=
  if 6 ≤ payload.length then ofBeBytes ((payload.drop 4).take 2) else 0

/-- A connect request is accepted, with a version between the least and the greatest one. -/
def acceptConnect (payload : List UInt8) : Phase × List Event :=
  match parseConnectPayload payload with
  | .error e => (.ended (.malformed e), [])
  | .ok (desired, _, _) => (.negotiating .start, [.accept (max 300 (min desired 319))])

/-- Two hexadecimal digits. -/
def hexByte (b : UInt8) : List Char :=
  [Nat.digitChar (b.toNat / 16), Nat.digitChar (b.toNat % 16)]

/-- The first message of the login needs the old verifier. -/
def uses11g (n : Negotiated) : Bool :=
  env.version == .v11g && !n.newerDescribeFraming && !n.profile.ociDialect

/-- What is made up at random. -/
def challenge (n : Negotiated) : Challenge :=
  if uses11g env n = true then .v11g env.vfr env.serverHalf11g
  else .v12c env.vfr env.serverHalf12c env.cskSalt

/-- `phase_one_sesskey`: the half of the server, under a hash of the password. -/
def phaseOneSesskey (P : Primitives) (s : AuthState) : Outcome (List UInt8) :=
  match s.verifier with
  | .v11g => aes192EncryptNoPadding P (passwordHash11g P s.password s.vfrData.1) s.serverA
  | .v12c =>
    aes256EncryptNoPadding P (passwordHash12c P s.password s.vfrData.1 s.vgenCount) s.serverA

/-- The name in the first message of the login. -/
def phaseOneUser (n : Negotiated) (payload : List UInt8) : Except End (List Char) :=
  if n.profile.ociDialect = true then
    match (parseOciAuth payload).1 with
    | some user => .ok user
    | none => .error (.protocol "OCI auth phase one has no username".toList)
  else
    match (parseAuthRequest false payload).1 with
    | .ok (user, _) => .ok user
    | .error e => .error (.malformed e)

/-- The answer for a wrong name or password. -/
def invalidLogin (n : Negotiated) : Event :=
  .invalidLogin n.profile.wantsResponseCompletion n.newerDescribeFraming n.profile.ociDialect

/-- The answer to the first message of the login. -/
def phaseOneResponse (n : Negotiated) (s : AuthState) (sesskey : List UInt8) : Event :=
  let hex := env.primitives.hexUpper
  if uses11g env n = true then .phaseOne11g (hex sesskey) (hex s.vfrData.1)
  else .phaseOne n.profile (hex sesskey) (hex s.vfrData.1) (hex (s.cskSalt.elim [] (·.1)))
    s.vgenCount s.sderCount

/-- The first message of the login. -/
def phaseOne (n : Negotiated) (payload : List UInt8) : Phase × List Event :=
  match phaseOneUser n payload with
  | .error e => (.ended e, [])
  | .ok user =>
    match env.credentials.passwordFor user with
    | none => (.ended .unknownUser, [.setUser user, invalidLogin n])
    | some password =>
      let auth := AuthState.new (utf8Encode password) (challenge env n)
      match phaseOneSesskey env.primitives auth with
      | .error _ => (.ended .panicked, [.setUser user])
      | .ok sesskey =>
        (.proving ⟨n, user, password, auth⟩, [.setUser user, phaseOneResponse env n auth sesskey])

/-- The answer to the types of a client. -/
def dataTypesResponse (n : Negotiated) (payload : List UInt8) : Event :=
  if n.profile.ociDialect = true then .dataTypesOci
  else if n.profile.naWithoutVersionList = true then .dataTypesNoVersionList
  else .dataTypes (buildDataTypesResponse payload)

/-- A packet of the negotiation. -/
def negotiate (n : Negotiated) (p : Packet) : Phase × List Event :=
  if p.packetType ≠ .data ∨ p.payload.length < 3 then
    (.ended (.protocol "expected a DATA packet during negotiation".toList), [])
  else if isAnoNegotiation p.payload = true then
    (.negotiating { n with didNa := true }, [.anoResponse])
  else
    let kind := p.payload.getD 2 0
    if kind = 0x28 then (.negotiating n, [])
    else if kind = 0x01 then
      match parseProtocolRequest p.payload with
      | .error e => (.ended (.malformed e), [])
      | .ok proto =>
        let oci := (WireProfile.new n.didNa proto [] []).probablyOciAtProtocol
        (.negotiating { n with proto := proto, splits := oci }, [.protocolResponse oci])
    else if kind = 0x02 then
      let caps := match parseDataTypesCaps p.payload with
        | .ok caps => caps
        | .error _ => (n.compileCaps, n.runtimeCaps)
      let n := { n with compileCaps := caps.1, runtimeCaps := caps.2 }
      (.negotiating { n with splits := n.profile.ociDialect }, [dataTypesResponse n p.payload])
    else if kind = 0x03 then phaseOne env n p.payload
    else (.ended (.protocol ("unexpected TTC message 0x".toList ++ hexByte kind ++
      " before authentication".toList)), [])

/-- The keys of the second message of the login, with their values. -/
def phaseTwoPairs (n : Negotiated) (payload : List UInt8) :
    Except End (List (String × List UInt8)) :=
  let named (pairs : List (List Char × List UInt8)) := pairs.map fun p => (String.ofList p.1, p.2)
  if n.profile.ociDialect = true then .ok (named (parseOciAuth payload).2)
  else
    match (parseAuthRequest n.profile.naWithoutVersionList payload).1 with
    | .ok (_, pairs) => .ok (named pairs)
    | .error e => .error (.malformed e)

/-- A login is refused. -/
def refuse (n : Negotiated) : Stop → Phase × List Event
  | .panicked => (.ended .panicked, [])
  | .failed message => (.ended (.authenticationFailed message), [invalidLogin n])

/-- The login is complete: the client is answered, and the backend is connected. -/
def connect (l : Login) (svrResponse : List Char) : Phase × List Event :=
  if env.connects l.user l.password = true then
    (.serving l, [.phaseTwo l.negotiated.profile svrResponse, .connectBackend l.user l.password])
  else
    (.ended .backendRefused, [.phaseTwo l.negotiated.profile svrResponse,
      .connectBackend l.user l.password, .backendError])

/-- The second message of the login. -/
def phaseTwo (l : Login) (p : Packet) : Phase × List Event :=
  if p.packetType ≠ .data then
    (.ended (.protocol "expected auth phase two DATA packet".toList), [])
  else
    match phaseTwoPairs l.negotiated p.payload with
    | .error e => (.ended e, [])
    | .ok pairs =>
      match lastValue pairs "AUTH_SESSKEY", lastValue pairs "AUTH_PASSWORD" with
      | none, _ => (.ended (.authenticationFailed "missing AUTH_SESSKEY"), [])
      | some _, none => (.ended (.authenticationFailed "missing AUTH_PASSWORD"), [])
      | some clientSesskey, some authPassword =>
        match setClientSesskey env.primitives l.auth clientSesskey with
        | .error stop => refuse l.negotiated stop
        | .ok auth =>
          match restOfLogin env.primitives auth authPassword
              (lastValue pairs "AUTH_PBKDF2_SPEEDY_KEY") with
          | .error stop => refuse l.negotiated stop
          | .ok svrResponse => connect env { l with auth := auth } svrResponse

/-- What a packet does. The packets of the main loop are not looked at here. -/
def step : Phase → Packet → Phase × List Event
  | .connecting, p =>
    if p.packetType ≠ .connect then (.ended (.protocol "expected CONNECT packet".toList), [])
    else if serviceOptions p.payload &&& 0x0040 ≠ 0 then (.reconnecting, [.resend])
    else acceptConnect p.payload
  | .reconnecting, p =>
    if p.packetType ≠ .connect then
      (.ended (.protocol "expected CONNECT packet after RESEND".toList), [])
    else acceptConnect p.payload
  | .negotiating n, p => negotiate env n p
  | .proving l, p => phaseTwo env l p
  | .serving l, _ => (.serving l, [])
  | .ended e, _ => (.ended e, [])

/-- What a list of packets does. -/
def run : Phase → List Packet → Phase × List Event
  | phase, [] => (phase, [])
  | phase, p :: ps =>
    ((run (step env phase p).1 ps).1, (step env phase p).2 ++ (run (step env phase p).1 ps).2)

/-! ### The connection to the backend -/

/-- The event is the connection to the backend. -/
def Event.isConnect : Event → Bool
  | .connectBackend _ _ => true
  | _ => false

/-- A login with the password that is stored for its user. -/
structure Login.Sound (l : Login) : Prop where
  stored : env.credentials.passwordFor l.user = some l.password
  fresh : l.auth = .new (utf8Encode l.password) (challenge env l.negotiated)

/-- **A packet proves the password of a login**: it has a half of the key and a proof, and the proof
is accepted with this half. -/
def Proves (l : Login) (p : Packet) : Prop :=
  ∃ pairs clientSesskey authPassword s, p.packetType = .data ∧
    phaseTwoPairs l.negotiated p.payload = .ok pairs ∧
    lastValue pairs "AUTH_SESSKEY" = some clientSesskey ∧
    lastValue pairs "AUTH_PASSWORD" = some authPassword ∧
    setClientSesskey env.primitives l.auth clientSesskey = .ok s ∧
    verifyPassword env.primitives s authPassword = .ok ()

/-- No packet is awaited any more before the main loop. -/
def Phase.IsLast : Phase → Prop
  | serving _ => True
  | ended _ => True
  | _ => False

variable {env}

lemma refuse_events (n : Negotiated) (stop : Stop) : ∀ e ∈ (refuse n stop).2, e.isConnect = false := by
  cases stop with
  | panicked => simp [refuse]
  | failed message => simp [refuse, invalidLogin, Event.isConnect]

lemma phaseOne_events (n : Negotiated) (payload : List UInt8) :
    ∀ e ∈ (phaseOne env n payload).2, e.isConnect = false := by
  unfold phaseOne
  split
  · simp
  · split
    · simp [invalidLogin, Event.isConnect]
    · dsimp only
      split
      · simp [Event.isConnect]
      · unfold phaseOneResponse
        dsimp only
        split_ifs <;> simp [Event.isConnect]

lemma negotiate_events (n : Negotiated) (p : Packet) :
    ∀ e ∈ (negotiate env n p).2, e.isConnect = false := by
  unfold negotiate
  dsimp only
  split_ifs
  · simp
  · simp [Event.isConnect]
  · simp
  · split <;> simp [Event.isConnect]
  · unfold dataTypesResponse
    split_ifs <;> simp [Event.isConnect]
  · exact phaseOne_events n p.payload
  · simp

lemma acceptConnect_events (payload : List UInt8) :
    ∀ e ∈ (acceptConnect payload).2, e.isConnect = false := by
  unfold acceptConnect
  split <;> simp [Event.isConnect]

/-- The second message of the login connects the backend only if it proves the password, and then
with the name and the password of the login. -/
lemma phaseTwo_connects (l : Login) (p : Packet) :
    (∀ e ∈ (phaseTwo env l p).2, e.isConnect = false) ∨
      Proves env l p ∧ ∃ auth svrResponse,
        phaseTwo env l p = connect env { l with auth := auth } svrResponse := by
  unfold phaseTwo
  split_ifs with htype
  · exact Or.inl (by simp)
  · split
    · exact Or.inl (by simp)
    next pairs hpairs =>
      split
      · exact Or.inl (by simp)
      · exact Or.inl (by simp)
      next clientSesskey authPassword hsesskey hpassword =>
        split
        next stop hstop => exact Or.inl (refuse_events l.negotiated stop)
        next s hs =>
          split
          next stop hstop => exact Or.inl (refuse_events l.negotiated stop)
          next svrResponse hrest =>
            obtain ⟨⟨⟩, hverify, -⟩ := exists_of_bind_ok hrest
            exact Or.inr ⟨⟨pairs, clientSesskey, authPassword, s, not_not.1 htype, hpairs, hsesskey,
              hpassword, hs, hverify⟩, s, svrResponse, rfl⟩

/-- **A step connects the backend** only for a login that waits for its proof. -/
lemma step_connects (phase : Phase) (p : Packet) :
    (∀ e ∈ (step env phase p).2, e.isConnect = false) ∨
      ∃ l, phase = .proving l ∧ Proves env l p ∧ ∃ auth svrResponse,
        step env phase p = connect env { l with auth := auth } svrResponse := by
  cases phase with
  | connecting =>
    refine Or.inl ?_
    rw [step]
    split_ifs
    · simp
    · simp [Event.isConnect]
    · exact acceptConnect_events p.payload
  | reconnecting =>
    refine Or.inl ?_
    rw [step]
    split_ifs
    · simp
    · exact acceptConnect_events p.payload
  | negotiating n => exact Or.inl (negotiate_events n p)
  | proving l =>
    rcases @phaseTwo_connects env l p with h | ⟨hproves, h⟩
    · exact Or.inl h
    · exact Or.inr ⟨l, rfl, hproves, h⟩
  | serving l => exact Or.inl (by simp [step])
  | ended e => exact Or.inl (by simp [step])

/-- The backend is connected once, and nothing is awaited any more. -/
lemma connect_events (l : Login) (svrResponse : List Char) :
    (connect env l svrResponse).2.filter Event.isConnect = [.connectBackend l.user l.password] ∧
      (connect env l svrResponse).1.IsLast := by
  unfold connect
  split_ifs
  · exact ⟨rfl, trivial⟩
  · exact ⟨rfl, trivial⟩

/-- Behind the login nothing happens before the main loop. -/
lemma run_of_isLast {phase : Phase} (h : phase.IsLast) (ps : List Packet) :
    run env phase ps = (phase, []) := by
  have hstep : ∀ p, step env phase p = (phase, []) := by
    intro p
    cases phase with
    | serving l => rfl
    | ended e => rfl
    | connecting => cases h
    | reconnecting => cases h
    | negotiating n => cases h
    | proving l => cases h
  induction ps with
  | nil => rfl
  | cons p ps ih => rw [run, hstep, ih]; rfl

/-! ### The login is sound -/

/-- What holds of a phase that is reached. -/
def Phase.Sound (env : Environment) : Phase → Prop
  | proving l => l.Sound env
  | _ => True

lemma acceptConnect_sound (payload : List UInt8) : (acceptConnect payload).1.Sound env := by
  unfold acceptConnect
  split <;> exact trivial

lemma refuse_isLast (n : Negotiated) (stop : Stop) : (refuse n stop).1.IsLast := by
  cases stop <;> exact trivial

lemma Phase.IsLast.sound {phase : Phase} (h : phase.IsLast) : phase.Sound env := by
  cases phase with
  | proving l => cases h
  | _ => exact trivial

/-- The second message of the login is the last one that is awaited. -/
lemma phaseTwo_isLast (l : Login) (p : Packet) : (phaseTwo env l p).1.IsLast := by
  unfold phaseTwo
  split_ifs
  · exact trivial
  · split
    · exact trivial
    · split
      · exact trivial
      · exact trivial
      · split
        next stop _ => exact refuse_isLast _ stop
        · split
          next stop _ => exact refuse_isLast _ stop
          · exact (connect_events _ _).2

/-- The first message of the login is checked against the password that is stored. -/
lemma phaseOne_sound (n : Negotiated) (payload : List UInt8) :
    (phaseOne env n payload).1.Sound env := by
  unfold phaseOne
  split
  · exact trivial
  · split
    · exact trivial
    next password hpassword =>
      dsimp only
      split
      · exact trivial
      · exact ⟨hpassword, rfl⟩

/-- **A step keeps the login sound.** -/
lemma step_sound (phase : Phase) (p : Packet) : (step env phase p).1.Sound env := by
  cases phase with
  | connecting =>
    rw [step]
    split_ifs
    · exact trivial
    · exact trivial
    · exact acceptConnect_sound p.payload
  | reconnecting =>
    rw [step]
    split_ifs
    · exact trivial
    · exact acceptConnect_sound p.payload
  | negotiating n =>
    rw [step]
    unfold negotiate
    dsimp only
    split_ifs
    all_goals try exact trivial
    · split <;> exact trivial
    · exact phaseOne_sound n p.payload
  | proving l => exact (phaseTwo_isLast l p).sound
  | serving l => exact trivial
  | ended e => exact trivial

/-- **A run keeps the login sound.** -/
lemma run_sound {phase : Phase} (h : phase.Sound env) (ps : List Packet) :
    (run env phase ps).1.Sound env := by
  induction ps generalizing phase with
  | nil => exact h
  | cons p ps ih => exact ih (step_sound phase p)

/-- What is behind one part of a run. -/
lemma run_append (phase : Phase) (ps qs : List Packet) : run env phase (ps ++ qs) =
    ((run env (run env phase ps).1 qs).1,
      (run env phase ps).2 ++ (run env (run env phase ps).1 qs).2) := by
  induction ps generalizing phase with
  | nil => rfl
  | cons p ps ih => rw [List.cons_append, run, ih, run, List.append_assoc]

/-- A run connects the backend at most once, and where it does. -/
lemma run_connects (phase : Phase) (ps : List Packet) :
    (∀ e ∈ (run env phase ps).2, e.isConnect = false) ∨
      ∃ before p after l, ps = before ++ p :: after ∧ (run env phase before).1 = .proving l ∧
        Proves env l p ∧
        (run env phase ps).2.filter Event.isConnect = [.connectBackend l.user l.password] := by
  induction ps generalizing phase with
  | nil => exact Or.inl (by simp [run])
  | cons p ps ih =>
    rcases @step_connects env phase p with hnone | ⟨l, rfl, hproves, auth, svrResponse, hstep⟩
    · have hfilter : (step env phase p).2.filter Event.isConnect = [] := by
        rw [List.filter_eq_nil_iff]
        intro e he hconnect
        rw [hnone e he] at hconnect
        cases hconnect
      rcases ih (step env phase p).1 with hrest | ⟨before, q, after, l, rfl, hbefore, hproves, hevents⟩
      · refine Or.inl ?_
        rw [run, List.forall_mem_append]
        exact ⟨hnone, hrest⟩
      · refine Or.inr ⟨p :: before, q, after, l, rfl, hbefore, hproves, ?_⟩
        rw [run, List.filter_append, hfilter, List.nil_append, hevents]
    · obtain ⟨hevents, hlast⟩ := @connect_events env { l with auth := auth } svrResponse
      refine Or.inr ⟨[], p, ps, l, rfl, rfl, hproves, ?_⟩
      rw [run, hstep, run_of_isLast hlast, List.append_nil, hevents]

/-- **The backend is connected once at most**, with a user and the password that is stored for that
user, and right behind a packet that proves it. -/
theorem backend_authorized (env : Environment) (ps : List Packet) :
    (run env .connecting ps).2.filter Event.isConnect = [] ∨
      ∃ before p after l, ps = before ++ p :: after ∧
        (run env .connecting before).1 = .proving l ∧
        env.credentials.passwordFor l.user = some l.password ∧
        l.auth = .new (utf8Encode l.password) (challenge env l.negotiated) ∧ Proves env l p ∧
        (run env .connecting ps).2.filter Event.isConnect =
          [.connectBackend l.user l.password] := by
  rcases @run_connects env .connecting ps with
    hnone | ⟨before, p, after, l, hps, hbefore, hproves, hevents⟩
  · refine Or.inl (List.filter_eq_nil_iff.2 fun e he hconnect => ?_)
    rw [hnone e he] at hconnect
    cases hconnect
  · have hstart : Phase.connecting.Sound env := trivial
    have hsound := run_sound hstart before
    rw [hbefore] at hsound
    exact Or.inr ⟨before, p, after, l, hps, hbefore, hsound.stored, hsound.fresh, hproves, hevents⟩

/-! ### What has been negotiated -/

/-- The last value that is found in a list of packets. -/
def lastOf {α : Type} (f : Packet → Option α) (ps : List Packet) : Option α := ps.reverse.findSome? f

/-- A packet with data offers the services of the network. -/
def isAno (p : Packet) : Bool := p.packetType == .data && isAnoNegotiation p.payload

/-- The kind of a message that is no such offer. -/
def messageKind (p : Packet) : Option UInt8 :=
  if p.packetType = .data ∧ isAnoNegotiation p.payload = false then some (p.payload.getD 2 0)
  else none

/-- The connect descriptor in a packet of its own. -/
def isDescriptor (p : Packet) : Bool := messageKind p == some 0x28

/-- The protocol a packet asks for. -/
def protocolOf (p : Packet) : Option ProtocolRequest :=
  if messageKind p = some 0x01 then (parseProtocolRequest p.payload).toOption else none

/-- The capabilities a packet has. -/
def capsOf (p : Packet) : Option (List UInt8 × List UInt8) :=
  if messageKind p = some 0x02 then (parseDataTypesCaps p.payload).toOption else none

/-- Whether a packet has the types of a client, or asks for a protocol. -/
def hasTypes (p : Packet) : Option Bool :=
  if messageKind p = some 0x02 then some true
  else if messageKind p = some 0x01 then some false
  else none

/-- **What has been negotiated** behind some packets and so many answers: the offer, the last
protocol and the last capabilities, in whatever order they come. Messages are split by the dialect,
unless a protocol is asked for behind the types. Each packet is answered, but for a descriptor. -/
structure Reflects (n : Negotiated) (ps : List Packet) (answers : ℕ) : Prop where
  didNa : n.didNa = ps.any isAno
  proto : n.proto = (lastOf protocolOf ps).getD .empty
  caps : (n.compileCaps, n.runtimeCaps) = (lastOf capsOf ps).getD ([], [])
  splits : lastOf hasTypes ps ≠ some false → n.splits = n.profile.ociDialect
  answered : answers = (ps.filter fun p => !isDescriptor p).length

lemma lastOf_concat {α : Type} (f : Packet → Option α) (ps : List Packet) (p : Packet) :
    lastOf f (ps ++ [p]) = (f p).or (lastOf f ps) := by
  rw [lastOf, List.reverse_append, List.reverse_singleton, List.singleton_append,
    List.findSome?_cons]
  cases f p <;> rfl

/-- A phase that is reached with some packets and so many answers. -/
def Phase.Reached (ps : List Packet) (answers : ℕ) : Phase → Prop
  | connecting => (∀ p ∈ ps, p.packetType = .connect) ∧ answers = ps.length
  | reconnecting => (∀ p ∈ ps, p.packetType = .connect) ∧ answers = ps.length
  | negotiating n => Reflects n ps answers
  | _ => True

lemma messageKind_connect {p : Packet} (h : p.packetType = .connect) : messageKind p = none := by
  rw [messageKind, h]
  exact if_neg fun h => by cases h.1

/-- Nothing is negotiated with connect requests. -/
lemma reflects_start {ps : List Packet} (h : ∀ p ∈ ps, p.packetType = .connect) :
    Reflects .start ps ps.length := by
  have hkind : ∀ p ∈ ps, messageKind p = none := fun p hp => messageKind_connect (h p hp)
  have hlast : ∀ {α : Type} (f : Packet → Option α), (∀ p, messageKind p = none → f p = none) →
      lastOf f ps = none := fun f hf =>
    List.findSome?_eq_none_iff.2 fun p hp => hf p (hkind p (List.mem_reverse.1 hp))
  refine ⟨?_, ?_, ?_, fun _ => rfl, ?_⟩
  · refine (List.any_eq_false.2 fun p hp hano => ?_).symm
    rw [isAno, h p hp] at hano
    cases hano
  · rw [hlast protocolOf fun p hp => by rw [protocolOf, hp]; rfl]
    rfl
  · rw [hlast capsOf fun p hp => by rw [capsOf, hp]; rfl]
    rfl
  · rw [List.filter_eq_self.2]
    intro p hp
    rw [isDescriptor, hkind p hp]
    rfl

lemma acceptConnect_reached {ps : List Packet} {p : Packet}
    (h : ∀ q ∈ ps ++ [p], q.packetType = .connect) : (acceptConnect p.payload).1.Reached (ps ++ [p])
      (ps.length + (acceptConnect p.payload).2.length) := by
  unfold acceptConnect
  split
  · exact trivial
  · have hstart := reflects_start h
    rwa [List.length_append, List.length_singleton] at hstart

/-- A step of the negotiation. -/
lemma negotiate_reached {n : Negotiated} {ps : List Packet} {answers : ℕ} (h : Reflects n ps answers)
    (p : Packet) : (negotiate env n p).1.Reached (ps ++ [p])
      (answers + (negotiate env n p).2.length) := by
  have hany : (ps ++ [p]).any isAno = (n.didNa || isAno p) := by
    rw [List.any_append, h.didNa, List.any_cons, List.any_nil, Bool.or_false]
  have hcount : ((ps ++ [p]).filter fun p => !isDescriptor p).length =
      answers + if isDescriptor p = true then 0 else 1 := by
    rw [List.filter_append, List.length_append, h.answered]
    cases hdescriptor : isDescriptor p <;> simp [hdescriptor]
  unfold negotiate
  split_ifs with htype hano
  · exact trivial
  · -- an offer of the services of the network
    rw [not_or, not_not] at htype
    have hkind : messageKind p = none := if_neg fun h => by rw [hano] at h; cases h.2
    have hisAno : isAno p = true := by rw [isAno, htype.1, hano]; rfl
    have hdescriptor : isDescriptor p = false := by rw [isDescriptor, hkind]; rfl
    refine ⟨?_, ?_, ?_, ?_, ?_⟩
    · rw [hany, hisAno, Bool.or_true]
    · rw [lastOf_concat, protocolOf, hkind]
      exact h.proto
    · rw [lastOf_concat, capsOf, hkind]
      exact h.caps
    · intro hlast
      rw [lastOf_concat, hasTypes, hkind] at hlast
      exact h.splits hlast
    · rw [hcount, hdescriptor]
      rfl
  · rw [not_or, not_not] at htype
    rw [Bool.not_eq_true] at hano
    have hkind : messageKind p = some (p.payload.getD 2 0) := if_pos ⟨htype.1, hano⟩
    have hisAno : isAno p = false := by rw [isAno, htype.1, hano]; rfl
    rw [hisAno, Bool.or_false] at hany
    dsimp only
    split_ifs with hparen hproto htypes hfunction
    · -- a descriptor
      rw [hparen] at hkind
      have hdescriptor : isDescriptor p = true := by rw [isDescriptor, hkind]; rfl
      refine ⟨hany.symm, ?_, ?_, ?_, ?_⟩
      · rw [lastOf_concat, protocolOf, hkind]
        exact h.proto
      · rw [lastOf_concat, capsOf, hkind]
        exact h.caps
      · intro hlast
        rw [lastOf_concat, hasTypes, hkind] at hlast
        exact h.splits hlast
      · rw [hcount, hdescriptor]
        rfl
    · -- a protocol
      rw [hproto] at hkind
      have hdescriptor : isDescriptor p = false := by rw [isDescriptor, hkind]; rfl
      split
      · exact trivial
      next proto hparse =>
        refine ⟨hany.symm, ?_, ?_, ?_, ?_⟩
        · rw [lastOf_concat, protocolOf, hkind, hparse]
          rfl
        · rw [lastOf_concat, capsOf, hkind]
          exact h.caps
        · intro hlast
          rw [lastOf_concat, hasTypes, hkind] at hlast
          exact absurd rfl hlast
        · rw [hcount, hdescriptor]
          rfl
    · -- the types of the client
      rw [htypes] at hkind
      have hdescriptor : isDescriptor p = false := by rw [isDescriptor, hkind]; rfl
      refine ⟨hany.symm, ?_, ?_, fun _ => rfl, ?_⟩
      · rw [lastOf_concat, protocolOf, hkind]
        exact h.proto
      · rw [lastOf_concat, capsOf, hkind, if_pos rfl]
        cases parseDataTypesCaps p.payload with
        | ok caps => rfl
        | error e => exact h.caps
      · rw [hcount, hdescriptor]
        rfl
    · -- the first message of the login is the end of the negotiation
      unfold phaseOne
      split
      · exact trivial
      · split
        · exact trivial
        · dsimp only
          split <;> exact trivial
    · exact trivial

/-- **A step of a connection.** -/
lemma step_reached {phase : Phase} {ps : List Packet} {answers : ℕ} (h : phase.Reached ps answers)
    (p : Packet) : (step env phase p).1.Reached (ps ++ [p])
      (answers + (step env phase p).2.length) := by
  have hconnect : (∀ q ∈ ps, q.packetType = .connect) → p.packetType = .connect →
      ∀ q ∈ ps ++ [p], q.packetType = .connect := by
    intro hps hp q hq
    rcases List.mem_append.1 hq with hq | hq
    · exact hps q hq
    · rwa [List.mem_singleton.1 hq]
  cases phase with
  | connecting =>
    obtain ⟨hps, rfl⟩ := h
    rw [step]
    split_ifs with htype hresend
    · exact trivial
    · exact ⟨hconnect hps (not_not.1 htype), by rw [List.length_append]; rfl⟩
    · exact acceptConnect_reached (hconnect hps (not_not.1 htype))
  | reconnecting =>
    obtain ⟨hps, rfl⟩ := h
    rw [step]
    split_ifs with htype
    · exact trivial
    · exact acceptConnect_reached (hconnect hps (not_not.1 htype))
  | negotiating n => exact negotiate_reached h p
  | proving l =>
    have hlast := @phaseTwo_isLast env l p
    rw [step]
    cases hphase : (phaseTwo env l p).1 with
    | serving l => exact trivial
    | ended e => exact trivial
    | connecting => rw [hphase] at hlast; cases hlast
    | reconnecting => rw [hphase] at hlast; cases hlast
    | negotiating n => rw [hphase] at hlast; cases hlast
    | proving l => exact trivial
  | serving l => exact trivial
  | ended e => exact trivial

lemma length_zeros (n : ℕ) : (List.replicate n (0 : UInt8)).length = n := List.length_replicate

/-- So many zeros. -/
def zeros (n : ℕ) : {b : List UInt8 // b.length = n} := ⟨List.replicate n 0, length_zeros n⟩

/-- A server with one password for all users, which does not encrypt. -/
def clearEnvironment : Environment where
  primitives := clearPrimitives
  credentials := Credentials.empty.setFallback (some "tiger".toList)
  version := .v19c
  vfr := zeros 16
  serverHalf11g := zeros 48
  serverHalf12c := zeros 32
  cskSalt := zeros 16
  connects _ _ := true

/-- A connect request for the version 319, without a descriptor. -/
def connectRequest : Packet := ⟨.connect, 0, [1, 0x3f] ++ List.replicate 16 0 ++ [0xff, 0xff]⟩

/-- An offer of the services of the network. -/
def anoRequest : Packet := ⟨.data, 0, [0, 0, 0xde, 0xad, 0xbe, 0xef]⟩

end DbSaci.Server.Connection
